import IUserApps.Sysdeps.Outcomes

/-!
# New fds

An fd from 3 on is open exactly when its slot holds a handle other than 0: this is what the search
for a free slot relies on, and it holds after every run (`consistent_after`). The slots of the
standard streams are another matter: they count as open whatever they hold, and slot 0 starts with
handle 0. A search that starts at 0 therefore takes stdin's slot.
-/

namespace IUserApps.Sysdeps

open Interact Runs

/-- The table agrees with the open fds. -/
structure Consistent (table : FdTable) (opened : Set ℕ) : Prop where
  opened_iff : ∀ fd < kMaxFd, fd ∈ opened ↔ fd < 3 ∨ table fd ≠ 0
  opened_lt : ∀ fd ∈ opened, fd < kMaxFd
  nonneg : ∀ fd < kMaxFd, 0 ≤ table fd
  stdout : table 1 ≠ 0
  stderr : table 2 ≠ 0

/-- At the start of a process the table holds the open fds' handles. -/
theorem consistent_initial : Consistent initialTable {fd | fd < 3} where
  opened_iff := by
    intro fd _
    show fd < 3 ↔ _
    unfold initialTable
    split_ifs <;> omega
  opened_lt := by
    intro fd h
    have h3 : fd < 3 := h
    unfold kMaxFd
    omega
  nonneg := by
    intro fd _
    unfold initialTable
    split_ifs <;> omega
  stdout := by decide
  stderr := by decide

section
variable {table : FdTable} {opened : Set ℕ}

/-- A handle stored in a slot opens its fd. -/
theorem Consistent.store (h : Consistent table opened) {fd : ℕ} {handle : ℤ} (hfd : fd < kMaxFd)
    (hhandle : 0 < handle) : Consistent (Function.update table fd handle) (opened ∪ {fd}) where
  opened_iff := by
    intro k hk
    have hiff := h.opened_iff k hk
    rcases eq_or_ne k fd with rfl | hne
    · rw [Function.update_self]
      exact iff_of_true (Or.inr rfl) (Or.inr hhandle.ne')
    · rw [Function.update_of_ne hne, ← hiff]
      exact or_iff_left hne
  opened_lt := by
    rintro k (hk | hk)
    · exact h.opened_lt k hk
    · obtain rfl : k = fd := hk
      exact hfd
  nonneg := by
    intro k hk
    rcases eq_or_ne k fd with rfl | hne
    · rw [Function.update_self]
      exact hhandle.le
    · rw [Function.update_of_ne hne]
      exact h.nonneg k hk
  stdout := by
    rcases eq_or_ne 1 fd with rfl | hne
    · rw [Function.update_self]
      exact hhandle.ne'
    · rw [Function.update_of_ne hne]
      exact h.stdout
  stderr := by
    rcases eq_or_ne 2 fd with rfl | hne
    · rw [Function.update_self]
      exact hhandle.ne'
    · rw [Function.update_of_ne hne]
      exact h.stderr

/-- A handle, 0 included, stored in a slot of a standard stream that held 0. -/
theorem Consistent.restore (h : Consistent table opened) {fd : ℕ} (hfd : fd < 3) {handle : ℤ}
    (hz : table fd = 0) (hhandle : 0 ≤ handle) :
    Consistent (Function.update table fd handle) opened where
  opened_iff := by
    intro k hk
    have hiff := h.opened_iff k hk
    rcases eq_or_ne k fd with rfl | hne
    · exact iff_of_true (hiff.2 (Or.inl hfd)) (Or.inl hfd)
    · rwa [Function.update_of_ne hne]
  opened_lt := h.opened_lt
  nonneg := by
    intro k hk
    rcases eq_or_ne k fd with rfl | hne
    · rwa [Function.update_self]
    · rw [Function.update_of_ne hne]
      exact h.nonneg k hk
  stdout := by
    rcases eq_or_ne 1 fd with rfl | hne
    · exact absurd hz h.stdout
    · rw [Function.update_of_ne hne]
      exact h.stdout
  stderr := by
    rcases eq_or_ne 2 fd with rfl | hne
    · exact absurd hz h.stderr
    · rw [Function.update_of_ne hne]
      exact h.stderr

/-- A slot that is freed closes its fd. -/
theorem Consistent.release (h : Consistent table opened) {fd : ℕ} (h3 : 3 ≤ fd) :
    Consistent (Function.update table fd 0) {k | k ∈ opened ∧ ((k : ℤ) = fd → k < 3)} where
  opened_iff := by
    intro k hk
    have hiff := h.opened_iff k hk
    show k ∈ opened ∧ ((k : ℤ) = fd → k < 3) ↔ _
    rcases eq_or_ne k fd with rfl | hne
    · rw [Function.update_self]
      constructor
      · rintro ⟨-, hlt⟩
        exact Or.inl (hlt rfl)
      · rintro (hlt | hlt)
        · omega
        · exact absurd rfl hlt
    · rw [Function.update_of_ne hne, ← hiff]
      exact and_iff_left fun heq => absurd (Int.ofNat.inj heq) hne
  opened_lt := fun k hk => h.opened_lt k hk.1
  nonneg := by
    intro k hk
    rcases eq_or_ne k fd with rfl | hne
    · rw [Function.update_self]
    · rw [Function.update_of_ne hne]
      exact h.nonneg k hk
  stdout := by
    rw [Function.update_of_ne (by omega)]
    exact h.stdout
  stderr := by
    rw [Function.update_of_ne (by omega)]
    exact h.stderr

end

/-! ## Runs -/

section
variable {i : Invocation} {table table' : FdTable} {trace : List (KCall × Answer)}
  {opened : Set ℕ} {live : Live}

/-- A granted handle is positive. -/
theorem granted_pos {c : KCall} {a : Answer} (h : Allowed live c a) {handle : ℤ}
    (hmem : handle ∈ granted c a) : 0 < handle := by
  have hfresh := h.1 handle hmem
  exact lt_trans (by decide) hfresh.2

/-- A step of a legal trace is allowed when it is made. -/
theorem legal_mid {pre rest : List (KCall × Answer)} {c : KCall} {a : Answer}
    (h : Legal live (pre ++ (c, a) :: rest)) : Allowed (live.run pre) c a := by
  rw [legal_append, legal_cons] at h
  exact h.2.1

/-- The handles that are registered from a message keep the table consistent. -/
theorem Consistent.registered {handles : List ℤ} {fds : List ℕ}
    (hr : Registered table handles trace fds table') (h : Consistent table opened)
    (hpos : ∀ handle ∈ handles, 0 < handle) : Consistent table' (opened ∪ {f | f ∈ fds}) := by
  induction hr generalizing opened with
  | nil table =>
    have hset : opened ∪ {f | f ∈ ([] : List ℕ)} = opened := by
      ext f
      simp
    rwa [hset]
  | kept hfree _ ih =>
    rename_i handle handles trace fd fds _
    obtain ⟨-, hlt, -⟩ := freeFd_eq_some.1 hfree
    have hstore := h.store hlt (hpos handle List.mem_cons_self)
    have hset : opened ∪ {f | f ∈ fd :: fds} = opened ∪ {fd} ∪ {f | f ∈ fds} := by
      ext f
      simp
      tauto
    rw [hset]
    exact ih hstore fun k hk => hpos k (List.mem_cons_of_mem _ hk)
  | closed _ _ _ ih => exact ih h fun k hk => hpos k (List.mem_cons_of_mem _ hk)

/-- A pair of handles is granted as a list of two. -/
theorem handles_pair {c : KCall} {a : Answer} (hc : c.number = .pipe ∨ c.number = .socketpair)
    (h : Allowed live c a) (ha : a.ok = true) :
    granted c a = [a.handles.getD 0 0, a.handles.getD 1 0] := by
  have hlen : a.handles.length = 2 := by
    have hshape := h.2.2 ha
    rcases hc with hc | hc <;> rw [hc] at hshape <;> exact hshape
  have hg : granted c a = a.handles := by
    unfold granted
    rw [if_pos ha]
    rcases hc with hc | hc <;> rw [hc]
  rw [hg]
  match hh : a.handles, hlen with
  | [_, _], _ => rfl

/-- A dup2 returns its target or a new handle. -/
theorem dup2_ret {handle target : ℤ} {a : Answer}
    (h : Allowed live (kcall .dup2 [handle, target] []) a) (ha : a.ok = true) :
    a.ret = target ∨ Fresh live a.ret := by
  have hshape : (target ∈ live → a.ret = target) ∧
      (target ∉ live → a.ret = target ∨ Fresh live a.ret) := h.2.2 ha
  by_cases hmem : target ∈ live
  · exact Or.inl (hshape.1 hmem)
  · exact hshape.2 hmem

/-- Every invocation but a `Close` adds its fds to the open ones. -/
theorem openedAfter_ok {fds : List ℕ} (hi : ∀ fd, i ≠ .close fd) :
    openedAfter opened i (.ok fds) = opened ∪ {f | f ∈ fds} := by
  cases i with
  | close fd => exact absurd rfl (hi fd)
  | _ => rfl

/-- The same for one fd. -/
theorem openedAfter_singleton {fd : ℕ} (hi : ∀ fd, i ≠ .close fd) :
    openedAfter opened i (.ok [fd]) = opened ∪ {fd} := by
  rw [openedAfter_ok hi]
  congr 1
  ext f
  simp

/-- A call that does nothing leaves the open fds: a close that does nothing closes a standard fd, or
a directory's handle, which is not open. -/
theorem Consistent.openedAfter_idle (h : Consistent table opened) (hidle : i.Idle) :
    openedAfter opened i (.ok []) = opened := by
  cases i with
  | close fd =>
    show {f | f ∈ opened ∧ ((f : ℤ) = fd → f < 3)} = opened
    ext f
    refine and_iff_left_of_imp fun hf heq => ?_
    have hlt := h.opened_lt f hf
    unfold kMaxFd at hlt
    rcases hidle with hstd | hbase
    · omega
    · unfold kDirHandleBase at hbase
      omega
  | _ =>
    rw [openedAfter_ok (by intro fd hfd; cases hfd)]
    ext f
    simp

/-- A `Dup2` onto the handle of an fd keeps the table consistent. -/
theorem Consistent.replace (h : Consistent table opened) {newfd : ℕ} (hlt : newfd < kMaxFd)
    (hcase : table newfd ≠ 0 ∨ newfd < 3) {handle : ℤ} {a : Answer} (ha : a.ok = true)
    (hl : Allowed live
      (kcall .dup2 [handle, if table newfd ≠ 0 then table newfd else newfd] []) a) :
    Consistent (Function.update table newfd a.ret) (opened ∪ {newfd}) := by
  have hret := dup2_ret hl ha
  have hnonneg := h.nonneg newfd hlt
  by_cases hz : table newfd = 0
  · -- Only the slot of stdin can hold 0.
    have hstd : newfd < 3 := hcase.resolve_left (not_not.2 hz)
    have hopen : opened ∪ {newfd} = opened := by
      ext f
      refine or_iff_left_of_imp fun hf => ?_
      obtain rfl : f = newfd := hf
      exact (h.opened_iff f hlt).2 (Or.inl hstd)
    rw [if_neg (not_not.2 hz)] at hret
    rw [hopen]
    refine h.restore hstd hz ?_
    rcases hret with hret | hret
    · omega
    · have hlt2 := hret.2
      omega
  · -- The slot keeps its handle, which was not 0.
    rw [if_pos hz] at hret
    refine h.store hlt ?_
    rcases hret with hret | hret
    · omega
    · have hlt2 := hret.2
      omega

/-- Both handles of a pair are stored: they are granted, and their slots are two. -/
theorem Consistent.storePair (h : Consistent table opened) {c : KCall} {a : Answer} {fd fd' : ℕ}
    (hc : c.number = .pipe ∨ c.number = .socketpair) (hl : Allowed live c a) (ha : a.ok = true)
    (hlt : fd < kMaxFd) (hlt' : fd' < kMaxFd) :
    Consistent
      (Function.update (Function.update table fd (a.handles.getD 0 0)) fd' (a.handles.getD 1 0))
      (opened ∪ {f | f ∈ [fd, fd']}) := by
  have hpos : ∀ handle ∈ [a.handles.getD 0 0, a.handles.getD 1 0], 0 < handle := by
    intro handle hmem
    exact granted_pos hl (by rwa [handles_pair hc hl ha])
  have hset : opened ∪ {f | f ∈ [fd, fd']} = opened ∪ {fd} ∪ {fd'} := by
    ext f
    simp
    tauto
  rw [hset]
  exact (h.store hlt (hpos _ (by simp))).store hlt' (hpos _ (by simp))

/-- Every outcome of a legal call keeps the table consistent. -/
theorem Consistent.outcome {r : Except Errno (List ℕ)} (h : Consistent table opened)
    (ho : Outcome i table trace r table') (hl : Legal live trace) :
    Consistent table' (openedAfter opened i r) := by
  cases ho with
  | failed e _ => exact h
  | idle hidle _ =>
    rw [h.openedAfter_idle hidle]
    exact h
  | opened hi hpre ha hg hne hfree =>
    -- A granted handle is positive, so it opens its slot.
    rename_i pre c a handle fd
    have hpos : 0 < handle := granted_pos (legal_mid hl) (hg ▸ List.mem_singleton_self _)
    rw [openedAfter_singleton (by rintro fd rfl; exact hi)]
    exact h.store (freeFd_eq_some.1 hfree).2.1 hpos
  | full _ _ _ _ _ _ _ => exact h
  | replaced hi hlt hcase ha =>
    rw [openedAfter_singleton (by rintro fd' rfl; cases hi)]
    exact h.replace hlt hcase ha (legal_cons.1 hl).1
  | placed hi hlt hz h3 ha =>
    rename_i fd newfd handle a
    have hpos : 0 < a.ret := by
      apply granted_pos (legal_cons.1 hl).1
      rw [granted_of_opener rfl ha]
      exact List.mem_singleton_self _
    rw [openedAfter_singleton (by rintro fd' rfl; cases hi)]
    exact h.store hlt hpos
  | pair hi hc ha hfree hfree' =>
    rw [openedAfter_ok (by rintro fd rfl; exact hi)]
    exact h.storePair hc (legal_cons.1 hl).1 ha (freeFd_eq_some.1 hfree).2.1
      (freeFd_eq_some.1 hfree').2.1
  | pipeHalf _ _ _ _ => exact h
  | pipeFull _ _ _ => exact h
  | pairFull _ _ => exact h
  | received hi ha hreg =>
    rename_i handle args a rest fds
    obtain ⟨fd, room, flags, alloc, rfl⟩ := hi
    refine h.registered hreg fun handle' hmem => granted_pos (legal_cons.1 hl).1 ?_
    unfold granted
    rw [if_pos ha]
    exact hmem
  | closed hi h3 hlt ha =>
    subst hi
    exact h.release h3

end

/-- The table of a process agrees with its open fds after every run. -/
theorem consistent_after {es : List Event} (h : LegalRun es) :
    Consistent (after es).libc.fdTable (after es).opened := by
  unfold after
  refine foldl_of_invariant (fun p : Process => Consistent p.libc.fdTable p.opened)
    (fun p e hp he => ?_) consistent_initial h
  exact hp.outcome (event_outcome p e) he

/-! ## The fd returned -/

/-- The calls that return one new fd. -/
def Invocation.MakesFd : Invocation → Prop
  | .open _ _ _ | .openat _ _ _ _ | .dup _ | .socket _ _ _ | .accept _ => True
  | .fcntl _ request _ => isDupFd request = true
  | _ => False

/-- The minimum that a call asks for its new fd, if it does. -/
def Invocation.minimum : Invocation → Option ℤ
  | .fcntl _ _ arg => some arg
  | _ => none

/-- The event returns one fd that was not open, the lowest such at or above the minimum asked for,
and changes no other fd's handle. -/
def ReturnsNewFd (p : Process) (e : Event) : Prop :=
  ∃ fd, p.result e = .ok [fd] ∧ fd ∉ p.opened ∧
    (∀ arg, e.call.minimum = some arg →
      arg ≤ fd ∧ ∀ k : ℕ, arg ≤ k → k < fd → k ∈ p.opened) ∧
    ∀ k, k ≠ fd → (p.step e).libc.fdTable k = p.libc.fdTable k

/-- The minimum is an `int`, and is not 0 while stdin's slot holds handle 0. -/
def MinimumHeld (table : FdTable) (i : Invocation) : Prop :=
  ∀ arg, i.minimum = some arg → arg < 2^31 ∧ (arg ≠ 0 ∨ table 0 ≠ 0)

/-- A successful call that makes an fd puts a handle into the first free slot. -/
theorem opened_of_ok {i : Invocation} {table table' : FdTable} {trace : List (KCall × Answer)}
    {fds : List ℕ} (hi : i.MakesFd) (h : Outcome i table trace (.ok fds) table') :
    ∃ fd handle, fds = [fd] ∧ freeFd table i.minFd = some fd ∧
      table' = Function.update table fd handle := by
  cases h with
  | opened _ _ _ _ _ hfree => exact ⟨_, _, rfl, hfree, rfl⟩
  | idle hidle _ =>
    cases i <;> first
      | exact absurd hidle id
      | exact absurd hi id
      | exact absurd (Eq.trans hidle.symm hi) (by decide)
  | replaced h' => subst h'; exact absurd hi id
  | placed h' => subst h'; exact absurd hi id
  | pair h' => cases i <;> first | exact absurd hi id | exact absurd h' id
  | received h' => obtain ⟨_, _, _, _, rfl⟩ := h'; exact absurd hi id
  | closed h' => subst h'; exact absurd hi id

/-- The search starts at the minimum asked for, as an `int`, or at 3. -/
theorem minFd_of_minimum {i : Invocation} :
    (∀ arg, i.minimum = some arg → i.minFd = int32 arg) ∧ (i.minimum = none → i.minFd = 3) := by
  cases i with
  | fcntl fd request arg =>
    constructor
    · intro arg' h
      exact congrArg int32 (Option.some.inj h)
    · intro h
      exact absurd h (by simp [Invocation.minimum])
  | _ => exact ⟨fun arg h => absurd h (by simp [Invocation.minimum]), fun _ => rfl⟩

/-- In every run, a successful call that makes an fd returns a new one, the lowest allowed, and
leaves the others, exactly when it does not ask for fd 0 while stdin's slot holds handle 0. -/
theorem returnsNewFd_iff {es : List Event} (h : LegalRun es) {e : Event} {fds : List ℕ}
    (hmakes : e.call.MakesFd) (hmin : ∀ arg, e.call.minimum = some arg → 0 ≤ arg)
    (hok : (after es).result e = .ok fds) :
    ReturnsNewFd (after es) e ↔ MinimumHeld (after es).libc.fdTable e.call := by
  have hc := consistent_after h
  have ho := event_outcome (after es) e
  generalize after es = p at hc ho hok ⊢
  rw [hok] at ho
  obtain ⟨fd, handle, rfl, hfree, htable⟩ := opened_of_ok hmakes ho
  obtain ⟨hle, hlt, hz, hfirst⟩ := freeFd_eq_some.1 hfree
  obtain ⟨hsome, hnone⟩ := minFd_of_minimum (i := e.call)
  have hlt256 : fd < 256 := hlt
  constructor
  · rintro ⟨fd', hfd', hnew, hlowest, -⟩ arg harg
    obtain rfl : fd = fd' := by
      rw [hok] at hfd'
      exact List.singleton_inj.1 (Except.ok.inj hfd')
    have hargle := (hlowest arg harg).1
    refine ⟨by omega, ?_⟩
    by_contra hboth
    obtain ⟨rfl, h0⟩ := not_or.1 hboth |>.imp not_not.1 not_not.1
    -- The search starts at 0 and stops there.
    have hstart : e.call.minFd = 0 := by
      rw [hsome 0 harg]
      decide
    rw [hstart] at hle hfirst
    have hfd : fd = 0 := by
      by_contra hne
      exact hfirst 0 (by omega) (by omega) h0
    subst hfd
    exact hnew ((hc.opened_iff 0 hlt).2 (Or.inl (by omega)))
  · intro hheld
    have hstd : ¬ fd < 3 := by
      intro hlt3
      have h1 : fd ≠ 1 := by
        rintro rfl
        exact hc.stdout hz
      have h2 : fd ≠ 2 := by
        rintro rfl
        exact hc.stderr hz
      obtain rfl : fd = 0 := by omega
      cases harg : e.call.minimum with
      | none =>
        rw [hnone harg] at hle
        omega
      | some arg =>
        have harg0 := hmin arg harg
        obtain ⟨hargLt, hcase⟩ := hheld arg harg
        rw [hsome arg harg, int32_of_fits ⟨by omega, hargLt⟩] at hle
        rcases hcase with hne | hne
        · omega
        · exact hne hz
    have hnew : fd ∉ p.opened := by
      intro hopen
      rcases (hc.opened_iff fd hlt).1 hopen with hlt3 | hne
      · exact hstd hlt3
      · exact hne hz
    refine ⟨fd, hok, hnew, fun arg harg => ?_, fun k hk => ?_⟩
    · have harg0 := hmin arg harg
      rw [hsome arg harg, int32_of_fits ⟨by omega, (hheld arg harg).1⟩] at hle hfirst
      refine ⟨hle, fun k hk hkfd => ?_⟩
      exact (hc.opened_iff k (by omega)).2 (Or.inr (hfirst k hk hkfd))
    · rw [htable, Function.update_of_ne hk]

/-- An answer with a return value and nothing else. -/
def returns (ret : ℤ) : Answer := ⟨ret, [], fun _ => 0, 0, []⟩

/-- A dup of stdout at or above fd 10, right at the start. -/
theorem returnsNewFd_ten :
    let e : Event := ⟨.fcntl 1 F_DUPFD 10, fun _ => returns 3⟩
    ReturnsNewFd (after []) e ∧ MinimumHeld (after []).libc.fdTable e.call := by
  have hok : (after []).result ⟨.fcntl 1 F_DUPFD 10, fun _ => returns 3⟩ = .ok [10] := rfl
  have hiff := returnsNewFd_iff (show LegalRun [] from trivial)
    (show (Invocation.fcntl 1 F_DUPFD 10).MakesFd from rfl)
    (by rintro arg h; cases h; decide) hok
  have hheld : MinimumHeld (after []).libc.fdTable (.fcntl 1 F_DUPFD 10) := by
    rintro arg h
    cases h
    exact ⟨by decide, Or.inl (by decide)⟩
  exact ⟨hiff.2 hheld, hheld⟩

/-- A dup of stdout at or above fd 0 at the start of a process returns fd 0, which is open, and
stdin's handle is lost. -/
theorem dupZero_takesStdin :
    ¬ ∀ (es : List Event) (e : Event) (fds : List ℕ), LegalRun es → LegalEvent (after es) e →
      e.call.MakesFd → (∀ arg, e.call.minimum = some arg → 0 ≤ arg) →
      (after es).result e = .ok fds → ReturnsNewFd (after es) e := by
  intro hclaim
  have hlegal : LegalEvent (after []) ⟨.fcntl 1 F_DUPFD 0, fun _ => returns 3⟩ := by
    show Legal initialLive [(kcall .fcntl [1] [0, 0], returns 3)]
    refine ⟨⟨?_, by decide, fun _ => trivial⟩, trivial⟩
    intro handle hmem
    obtain rfl : handle = 3 := List.mem_singleton.1 hmem
    refine ⟨?_, by decide⟩
    rintro (h | h | h) <;> exact absurd h (by decide)
  obtain ⟨fd, hfd, hnew, -⟩ := hclaim [] ⟨.fcntl 1 F_DUPFD 0, fun _ => returns 3⟩ [0] trivial
    hlegal rfl (by rintro arg h; cases h; decide) rfl
  have hzero : (after []).result ⟨.fcntl 1 F_DUPFD 0, fun _ => returns 3⟩ = .ok [0] := rfl
  rw [hzero] at hfd
  obtain rfl := List.singleton_inj.1 (Except.ok.inj hfd)
  exact hnew (show (0 : ℕ) < 3 by decide)

end IUserApps.Sysdeps
