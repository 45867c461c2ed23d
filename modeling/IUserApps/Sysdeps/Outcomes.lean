import IUserApps.Sysdeps.Process

/-!
# What the calls can do

For each call that makes or releases fds, what its runs are: the kernel calls in order, with their
answers, and the table afterwards. The results on fds and on handles rest on these descriptions
and do not look into the calls again.
-/

namespace IUserApps.Sysdeps

open Interact

variable {s s' : Libc} {trace : List (KCall × Answer)}

/-- A trace whose calls are all quiet. -/
def QuietTrace (trace : List (KCall × Answer)) : Prop := ∀ step ∈ trace, Quiet step.1 step.2

/-- Without a call no handle is opened or closed. -/
@[simp] theorem quietTrace_nil : QuietTrace [] := fun _ h => absurd h List.not_mem_nil

/-- A trace is quiet if its first call is, and the others. -/
@[simp] theorem quietTrace_cons {c : KCall} {a : Answer} :
    QuietTrace ((c, a) :: trace) ↔ Quiet c a ∧ QuietTrace trace := by
  unfold QuietTrace
  exact List.forall_mem_cons

/-- Traces in sequence are quiet if both are. -/
theorem quietTrace_append {t t' : List (KCall × Answer)} :
    QuietTrace (t ++ t') ↔ QuietTrace t ∧ QuietTrace t' := by
  unfold QuietTrace
  exact List.forall_mem_append

/-- A failed call alone. -/
theorem quietTrace_of_failed {c : KCall} {a : Answer} (h : a.ok = false) :
    QuietTrace [(c, a)] := quietTrace_cons.2 ⟨quiet_of_failed h, quietTrace_nil⟩

/-- A sysdep that only makes quiet calls and leaves the fd table. -/
def QuietSys {α : Type} (m : Sys α) : Prop :=
  ∀ s trace r s', Act.Runs m s trace r s' → QuietTrace trace ∧ s'.fdTable = s.fdTable

/-- A returned value changes no handle. -/
theorem quietSys_pure {α : Type} (a : α) : QuietSys (pure a : Sys α) := by
  intro s trace r s' h
  obtain ⟨rfl, -, rfl⟩ := Act.runs_pure.1 h
  exact ⟨quietTrace_nil, rfl⟩

/-- A raised error changes no handle. -/
theorem quietSys_throw {α : Type} (e : Errno) : QuietSys (Act.throw e : Sys α) := by
  intro s trace r s' h
  obtain ⟨rfl, -, rfl⟩ := Act.runs_throw.1 h
  exact ⟨quietTrace_nil, rfl⟩

/-- Quiet sysdeps in sequence are quiet. -/
theorem quietSys_bind {α β : Type} {m : Sys α} {f : α → Sys β} (hm : QuietSys m)
    (hf : ∀ a, QuietSys (f a)) : QuietSys (m >>= f) := by
  intro s trace r s' h
  rcases Act.runs_bind.1 h with ⟨e, h, -⟩ | ⟨a, mid, first, last, h1, h2, rfl⟩
  · exact hm _ _ _ _ h
  · obtain ⟨hq1, ht1⟩ := hm _ _ _ _ h1
    obtain ⟨hq2, ht2⟩ := hf a _ _ _ _ h2
    exact ⟨quietTrace_append.2 ⟨hq1, hq2⟩, ht2.trans ht1⟩

/-- A call that neither grants nor releases handles. -/
theorem quietSys_ask {c : KCall} (h : c.number.plain = true) : QuietSys (Act.ask c : Sys Answer) := by
  intro s trace r s' hr
  obtain ⟨a, rfl, -, rfl⟩ := Act.runs_ask.1 hr
  exact ⟨quietTrace_cons.2 ⟨quiet_of_plain h a, quietTrace_nil⟩, rfl⟩

/-- A plain call is quiet. -/
theorem quietSys_syscall {c : KCall} (h : c.number.plain = true) : QuietSys (syscall c) := by
  refine quietSys_bind (quietSys_ask h) fun a => ?_
  split
  · exact quietSys_throw _
  · exact quietSys_pure _

/-- Looking up a handle is quiet. -/
theorem quietSys_withHandle {α : Type} {fd : ℤ} {next : ℤ → Sys α}
    (h : ∀ handle, QuietSys (next handle)) : QuietSys (withHandle fd next) := by
  intro s trace r s' hr
  rw [runs_withHandle] at hr
  split at hr
  · obtain ⟨rfl, -, rfl⟩ := hr
    exact ⟨quietTrace_nil, rfl⟩
  · exact h _ _ _ _ _ hr

/-- A path is resolved without a change. -/
theorem quietSys_atResolve (dirfd : ℤ) (path : Option (List Byte)) (outsz : ℕ) :
    QuietSys (atResolve dirfd path outsz) := by
  unfold atResolve
  cases path with
  | none => exact quietSys_throw _
  | some path =>
    dsimp only
    split
    · exact quietSys_pure _
    · exact quietSys_withHandle fun handle =>
        quietSys_bind (quietSys_syscall rfl) fun a => quietSys_pure _

/-! ## Outcomes -/

/-- Where a call that makes one fd looks for it. -/
def Invocation.minFd : Invocation → ℤ
  | .fcntl _ _ arg => int32 arg
  | _ => 3

/-- The calls that are granted one handle and make an fd of it. -/
def Invocation.Opens : Invocation → Prop
  | .open _ _ _ | .openat _ _ _ _ | .dup _ | .socket _ _ _ | .accept _ | .ioctl _ _ _ => True
  | .fcntl _ request _ => isDupFd request = true
  | _ => False

/-- The calls that make two fds. -/
def Invocation.OpensPair : Invocation → Prop
  | .pipe | .socketpair _ _ _ => True
  | _ => False

/-- The calls that may succeed without a new fd and without closing one. -/
def Invocation.Idle : Invocation → Prop
  | .fcntl _ request _ => isDupFd request = false
  | .msgRecv _ _ _ _ => True
  | .ioctl _ _ _ => True
  | .close fd => fd < 3 ∨ kDirHandleBase ≤ fd
  | _ => False

/-- The handles of a message are registered one after another, and those that find no slot are
closed. -/
inductive Registered : FdTable → List ℤ → List (KCall × Answer) → List ℕ → FdTable → Prop
  | nil (table : FdTable) : Registered table [] [] [] table
  | kept {table table' : FdTable} {handle : ℤ} {handles : List ℤ} {trace : List (KCall × Answer)}
    {fd : ℕ} {fds : List ℕ} : freeFd table 3 = some fd →
    Registered (Function.update table fd handle) handles trace fds table' →
    Registered table (handle :: handles) trace (fd :: fds) table'
  | closed {table table' : FdTable} {handle : ℤ} {handles : List ℤ}
    {trace : List (KCall × Answer)} {fds : List ℕ} (a : Answer) : freeFd table 3 = none →
    Registered table handles trace fds table' →
    Registered table (handle :: handles) ((kcall .close [handle] [], a) :: trace) fds table'

/-- What a call can do to the fd table, with the kernel calls that it makes and its result. -/
inductive Outcome (i : Invocation) (table : FdTable) :
    List (KCall × Answer) → Except Errno (List ℕ) → FdTable → Prop
  /-- It fails and has done nothing. -/
  | failed {trace : List (KCall × Answer)} (e : Errno) : QuietTrace trace →
    Outcome i table trace (.error e) table
  /-- It succeeds and leaves the table. -/
  | idle {trace : List (KCall × Answer)} : i.Idle → QuietTrace trace →
    Outcome i table trace (.ok []) table
  /-- It is granted one handle, which becomes the first free fd. -/
  | opened {pre : List (KCall × Answer)} {c : KCall} {a : Answer} {handle : ℤ} {fd : ℕ} :
    i.Opens → QuietTrace pre → a.ok = true → granted c a = [handle] →
    c.number ≠ .close ∧ c.number ≠ .dup2 → freeFd table i.minFd = some fd →
    Outcome i table (pre ++ [(c, a)]) (.ok [fd]) (Function.update table fd handle)
  /-- It is granted one handle, which it closes. -/
  | full {pre : List (KCall × Answer)} {c : KCall} {a : Answer} {handle : ℤ} (a' : Answer) :
    i.Opens → QuietTrace pre → a.ok = true → granted c a = [handle] →
    c.number ≠ .close ∧ c.number ≠ .dup2 → freeFd table i.minFd = none →
    Outcome i table (pre ++ [(c, a), (kcall .close [handle] [], a')]) (.error EMFILE) table
  /-- A `Dup2` onto the handle of an fd. -/
  | replaced {fd : ℤ} {newfd : ℕ} {handle : ℤ} {a : Answer} : i = .dup2 fd newfd →
    newfd < kMaxFd → table newfd ≠ 0 ∨ newfd < 3 → a.ok = true →
    Outcome i table
      [(kcall .dup2 [handle, if table newfd ≠ 0 then table newfd else newfd] [], a)]
      (.ok [newfd]) (Function.update table newfd a.ret)
  /-- A `Dup2` onto a free fd. -/
  | placed {fd : ℤ} {newfd : ℕ} {handle : ℤ} {a : Answer} : i = .dup2 fd newfd →
    newfd < kMaxFd → table newfd = 0 → 3 ≤ newfd → a.ok = true →
    Outcome i table [(kcall .dup [handle] [], a)] (.ok [newfd])
      (Function.update table newfd a.ret)
  /-- A pair of handles becomes two fds. -/
  | pair {c : KCall} {a : Answer} {fd fd' : ℕ} : i.OpensPair → c.number = .pipe ∨ c.number = .socketpair →
    a.ok = true → freeFd table 3 = some fd →
    freeFd (Function.update table fd (a.handles.getD 0 0)) 3 = some fd' →
    Outcome i table [(c, a)] (.ok [fd, fd'])
      (Function.update (Function.update table fd (a.handles.getD 0 0)) fd' (a.handles.getD 1 0))
  /-- A pipe in a table with one free slot: the first handle is closed. -/
  | pipeHalf {a a' : Answer} {fd : ℕ} : i = .pipe → a.ok = true → freeFd table 3 = some fd →
    freeFd (Function.update table fd (a.handles.getD 0 0)) 3 = none →
    Outcome i table [(kcall .pipe [] [], a), (kcall .close [a.handles.getD 0 0] [], a')]
      (.error EMFILE) table
  /-- A pipe in a full table: no handle is closed. -/
  | pipeFull {a : Answer} : i = .pipe → a.ok = true → freeFd table 3 = none →
    Outcome i table [(kcall .pipe [] [], a)] (.error EMFILE) table
  /-- A socket pair without two free slots: both handles are closed. -/
  | pairFull {args : List ℤ} {a a' a'' : Answer} : i.OpensPair → a.ok = true →
    Outcome i table [(kcall .socketpair [] args, a), (kcall .close [a.handles.getD 0 0] [], a'),
      (kcall .close [a.handles.getD 1 0] [], a'')] (.error EMFILE) table
  /-- A message with handles. -/
  | received {handle : ℤ} {args : List ℤ} {a : Answer} {rest : List (KCall × Answer)}
    {fds : List ℕ} {table' : FdTable} : (∃ fd room flags alloc, i = .msgRecv fd room flags alloc) →
    a.ok = true → Registered table a.handles rest fds table' →
    Outcome i table ((kcall .socketRecvmsg [handle] args, a) :: rest) (.ok fds) table'
  /-- An fd is closed. -/
  | closed {fd : ℕ} {a : Answer} : i = .close fd → 3 ≤ fd → fd < kMaxFd → a.ok = true →
    Outcome i table [(kcall .close [table fd] [], a)] (.ok []) (Function.update table fd 0)

/-! ## Calls that return one new fd -/

/-- The runs of a sysdep that obtains one handle: it fails before that, or it is granted the handle
and makes an fd of it, the first free one from `min` on. -/
def OneHandle (m : Sys ℕ) (min : ℤ) : Prop :=
  ∀ s trace r s', Act.Runs m s trace r s' →
    (∃ e, r = .error e ∧ QuietTrace trace ∧ s'.fdTable = s.fdTable) ∨
    ∃ pre c a rest, trace = pre ++ (c, a) :: rest ∧ QuietTrace pre ∧ a.ok = true ∧
      granted c a = [a.ret] ∧ (c.number ≠ .close ∧ c.number ≠ .dup2) ∧
      ∃ mid, mid.fdTable = s.fdTable ∧ Act.Runs (newFd a.ret min) mid rest r s'

/-- The kernel calls that grant the handle they return. -/
def opener : Syscall → Bool
  | .open | .dup | .socket | .accept => true
  | _ => false

/-- They grant nothing else. -/
theorem granted_of_opener {c : KCall} {a : Answer} (h : opener c.number = true)
    (ha : a.ok = true) : granted c a = [a.ret] := by
  unfold granted
  cases hn : c.number <;> rw [hn] at h <;> first
    | exact absurd h (by decide)
    | simp [ha]

/-- A call that opens is neither a close nor a `dup2`. -/
theorem ne_of_opener {c : KCall} (h : opener c.number = true) :
    c.number ≠ .close ∧ c.number ≠ .dup2 := by
  constructor <;> intro hn <;> rw [hn] at h <;> exact absurd h (by decide)

/-- A call and an fd for the handle that it grants. -/
theorem oneHandle_syscall {c : KCall} {min : ℤ}
    (hg : ∀ a, a.ok = true → granted c a = [a.ret])
    (hc : c.number ≠ .close ∧ c.number ≠ .dup2) :
    OneHandle (do let ret ← syscall c; newFd ret.ret min) min := by
  intro s trace r s' h
  obtain ⟨a, rest, rfl, ⟨ha, rfl, rfl, rfl⟩ | ⟨ha, h'⟩⟩ := runs_syscall_bind.1 h
  · exact Or.inl ⟨_, rfl, quietTrace_of_failed ha, rfl⟩
  · exact Or.inr ⟨[], c, a, rest, rfl, quietTrace_nil, ha, hg a ha, hc, s, rfl, h'⟩

/-- A call that opens, and an fd for its handle. -/
theorem oneHandle_opener {c : KCall} {min : ℤ} (h : opener c.number = true) :
    OneHandle (do let ret ← syscall c; newFd ret.ret min) min :=
  oneHandle_syscall (fun _ ha => granted_of_opener h ha) (ne_of_opener h)

/-- A quiet part first. -/
theorem oneHandle_bind {α : Type} {m : Sys α} {f : α → Sys ℕ} {min : ℤ} (hm : QuietSys m)
    (hf : ∀ a, OneHandle (f a) min) : OneHandle (m >>= f) min := by
  intro s trace r s' h
  rcases Act.runs_bind.1 h with ⟨e, h1, rfl⟩ | ⟨x, mid, first, last, h1, h2, rfl⟩
  · obtain ⟨hq, ht⟩ := hm _ _ _ _ h1
    exact Or.inl ⟨e, rfl, hq, ht⟩
  · obtain ⟨hq, ht⟩ := hm _ _ _ _ h1
    rcases hf x _ _ _ _ h2 with ⟨e, he, hq', ht'⟩ | ⟨pre, c, a, rest, rfl, hpre, ha, hg, hc, mid',
      hmid, hn⟩
    · exact Or.inl ⟨e, he, quietTrace_append.2 ⟨hq, hq'⟩, ht'.trans ht⟩
    · exact Or.inr ⟨first ++ pre, c, a, rest, by simp, quietTrace_append.2 ⟨hq, hpre⟩, ha, hg, hc,
        mid', hmid.trans ht, hn⟩

/-- The look-up of an fd first. -/
theorem oneHandle_withHandle {fd : ℤ} {next : ℤ → Sys ℕ} {min : ℤ}
    (h : ∀ handle, OneHandle (next handle) min) : OneHandle (withHandle fd next) min := by
  intro s trace r s' hr
  rw [runs_withHandle] at hr
  split at hr
  · obtain ⟨rfl, rfl, rfl⟩ := hr
    exact Or.inl ⟨_, rfl, quietTrace_nil, rfl⟩
  · exact h _ _ _ _ _ hr

/-- The outcomes of a call whose first call grants the handle. -/
theorem outcome_opened {i : Invocation} {table : FdTable} {c : KCall} {a : Answer} {handle : ℤ}
    {fd : ℕ} (hi : i.Opens) (ha : a.ok = true) (hg : granted c a = [handle])
    (hc : c.number ≠ .close ∧ c.number ≠ .dup2) (hfree : freeFd table i.minFd = some fd) :
    Outcome i table [(c, a)] (.ok [fd]) (Function.update table fd handle) := by
  have h := Outcome.opened hi quietTrace_nil ha hg hc hfree
  exact h

/-- The outcome when there is no fd for the handle. -/
theorem outcome_full {i : Invocation} {table : FdTable} {c : KCall} {a : Answer} {handle : ℤ}
    (a' : Answer) (hi : i.Opens) (ha : a.ok = true) (hg : granted c a = [handle])
    (hc : c.number ≠ .close ∧ c.number ≠ .dup2) (hfree : freeFd table i.minFd = none) :
    Outcome i table [(c, a), (kcall .close [handle] [], a')] (.error EMFILE) table := by
  have h := Outcome.full a' hi quietTrace_nil ha hg hc hfree
  exact h

/-- The outcome of a call that makes one fd. -/
theorem outcome_of_oneHandle {i : Invocation} {m : Sys ℕ} {min : ℤ} (hm : OneHandle m min)
    (hmin : i.minFd = min) (hi : i.Opens) {r : Except Errno (List ℕ)}
    (h : Act.Runs (do let fd ← m; pure [fd]) s trace r s') :
    Outcome i s.fdTable trace r s'.fdTable := by
  subst hmin
  have hfail : ∀ {r : Except Errno ℕ}, Act.Runs m s trace r s' → ∀ e, r = .error e →
      Outcome i s.fdTable trace (.error e) s'.fdTable := by
    intro r h e he
    rcases hm _ _ _ _ h with ⟨e', rfl, hq, ht⟩ | ⟨pre, c, a, rest, rfl, hpre, ha, hg, hc, mid,
      hmid, hn⟩
    · obtain rfl := Except.error.inj he
      rw [ht]
      exact .failed _ hq
    · rcases runs_newFd.1 hn with ⟨fd, -, -, rfl, -⟩ | ⟨hfree, a', rfl, rfl, rfl⟩
      · exact absurd he (by simp)
      · obtain rfl := Except.error.inj he
        rw [hmid] at hfree ⊢
        exact .full a' hi hpre ha hg hc hfree
  rcases Act.runs_bind.1 h with ⟨e, h1, rfl⟩ | ⟨fd, mid, first, last, h1, h2, rfl⟩
  · exact hfail h1 e rfl
  · obtain ⟨rfl, rfl, rfl⟩ := Act.runs_pure.1 h2
    rcases hm _ _ _ _ h1 with ⟨e, he, -⟩ | ⟨pre, c, a, rest, rfl, hpre, ha, hg, hc, mid, hmid, hn⟩
    · exact absurd he (by simp)
    · rcases runs_newFd.1 hn with ⟨fd', hfree, rfl, hr, rfl⟩ | ⟨-, a', -, hr, -⟩
      · obtain rfl := Except.ok.inj hr
        rw [hmid] at hfree
        simp only [List.append_nil, fdTable_setFd, hmid]
        exact .opened hi hpre ha hg hc hfree
      · exact absurd hr (by simp)

/-- `Open` opens one handle. -/
theorem oneHandle_sysOpen (path : List Byte) (flags mode : ℤ) :
    OneHandle (sysOpen path flags mode) 3 := oneHandle_opener rfl

/-- `Openat` opens one handle. -/
theorem oneHandle_sysOpenat (dirfd : ℤ) (path : Option (List Byte)) (flags mode : ℤ) :
    OneHandle (sysOpenat dirfd path flags mode) 3 :=
  oneHandle_bind (quietSys_atResolve _ _ _) fun _ => oneHandle_opener rfl

/-- `Dup` opens one handle. -/
theorem oneHandle_sysDup (fd : ℤ) : OneHandle (sysDup fd) 3 :=
  oneHandle_withHandle fun _ => oneHandle_opener rfl

/-- `Socket` opens one handle. -/
theorem oneHandle_sysSocket (family type protocol : ℤ) :
    OneHandle (sysSocket family type protocol) 3 := oneHandle_opener rfl

/-- `Accept` opens one handle. -/
theorem oneHandle_sysAccept (fd : ℤ) : OneHandle (sysAccept fd) 3 :=
  oneHandle_withHandle fun _ => oneHandle_opener rfl

/-- A dup request grants the handle that the kernel returns. -/
theorem granted_fcntl {request : ℤ} (h : isDupFd request = true) {handle arg : ℤ} {a : Answer}
    (ha : a.ok = true) : granted (kcall .fcntl [handle] [request, arg]) a = [a.ret] := by
  unfold isDupFd at h
  simp only [Bool.or_eq_true, decide_eq_true_eq] at h
  unfold granted
  simp only [kcall, ha, if_true, List.head?_cons, Option.some.injEq]
  rw [if_pos h]

/-- Another request grants none. -/
theorem quiet_fcntl {request : ℤ} (h : isDupFd request = false) (handle arg : ℤ) (a : Answer) :
    Quiet (kcall .fcntl [handle] [request, arg]) a := by
  unfold isDupFd at h
  simp only [Bool.or_eq_false_iff, decide_eq_false_iff_not] at h
  unfold Quiet granted
  constructor
  · simp only [kcall, List.head?_cons, Option.some.injEq, h.1, h.2, or_self, if_false, ite_self]
  · intro _
    exact ⟨by simp [kcall], by simp [kcall]⟩

/-- `Fcntl` as the outcome of a call. -/
theorem outcome_fcntl {fd request arg : ℤ} {r : Except Errno (List ℕ)}
    (h : Act.Runs (Invocation.fcntl fd request arg).run s trace r s') :
    Outcome (.fcntl fd request arg) s.fdTable trace r s'.fdTable := by
  cases hdup : isDupFd request with
  | true =>
    -- The dup requests are a call that makes one fd.
    apply outcome_of_oneHandle (m := withHandle fd fun handle => do
      let ret ← syscall (kcall .fcntl [handle] [request, arg])
      newFd ret.ret (int32 arg))
    · exact oneHandle_withHandle fun handle =>
        oneHandle_syscall (fun a ha => granted_fcntl hdup ha) ⟨by simp [kcall], by simp [kcall]⟩
    · rfl
    · exact hdup
    · have hrun : (Invocation.fcntl fd request arg).run = (do
          let newfd ← withHandle fd fun handle => do
            let ret ← syscall (kcall .fcntl [handle] [request, arg])
            newFd ret.ret (int32 arg)
          pure [newfd]) := by
        unfold Invocation.run sysFcntl
        simp only [hdup, if_true, withHandle_bind, bind_assoc, pure_bind, Int.toNat_natCast]
      rwa [hrun] at h
  | false =>
    -- The others are one quiet call.
    have hq : ∀ handle, QuietSys (do
        let ret ← syscall (kcall .fcntl [handle] [request, arg])
        pure (int32 ret.ret)) := by
      intro handle s trace r s' h
      obtain ⟨a, rest, rfl, ⟨-, rfl, -, rfl⟩ | ⟨-, h'⟩⟩ := runs_syscall_bind.1 h
      · exact ⟨quietTrace_cons.2 ⟨quiet_fcntl hdup handle arg a, quietTrace_nil⟩, rfl⟩
      · obtain ⟨rfl, -, rfl⟩ := Act.runs_pure.1 h'
        exact ⟨quietTrace_cons.2 ⟨quiet_fcntl hdup handle arg a, quietTrace_nil⟩, rfl⟩
    have hrun : (Invocation.fcntl fd request arg).run = (do
        let _ ← withHandle fd fun handle => do
          let ret ← syscall (kcall .fcntl [handle] [request, arg])
          pure (int32 ret.ret)
        pure []) := by
      unfold Invocation.run sysFcntl
      simp only [hdup, Bool.false_eq_true, if_false]
    rw [hrun] at h
    rcases Act.runs_bind.1 h with ⟨e, h1, rfl⟩ | ⟨x, mid, first, last, h1, h2, rfl⟩
    · obtain ⟨hq, ht⟩ := quietSys_withHandle hq _ _ _ _ h1
      rw [ht]
      exact .failed e hq
    · obtain ⟨hq, ht⟩ := quietSys_withHandle hq _ _ _ _ h1
      obtain ⟨rfl, rfl, rfl⟩ := Act.runs_pure.1 h2
      rw [ht, List.append_nil]
      exact .idle hdup hq

/-- `Dup2` as the outcome of a call. -/
theorem outcome_dup2 {fd newfd : ℤ} {r : Except Errno (List ℕ)}
    (h : Act.Runs (Invocation.dup2 fd newfd).run s trace r s') :
    Outcome (.dup2 fd newfd) s.fdTable trace r s'.fdTable := by
  rw [Invocation.run, sysDup2] at h
  rw [withHandle_bind, runs_withHandle] at h
  split at h
  · obtain ⟨rfl, rfl, rfl⟩ := h
    exact .failed _ quietTrace_nil
  · split at h
    · obtain ⟨rfl, rfl, rfl⟩ := Act.runs_throw_bind.1 h
      exact .failed _ quietTrace_nil
    · next hin =>
      obtain ⟨n, rfl⟩ : ∃ n : ℕ, newfd = n := ⟨newfd.toNat, by omega⟩
      have hn : n < kMaxFd := by omega
      rw [bind_assoc, Act.runs_get_bind] at h
      dsimp only at h
      rw [bind_assoc] at h
      obtain ⟨a, rest, rfl, ⟨ha, rfl, rfl, rfl⟩ | ⟨ha, h'⟩⟩ := runs_syscall_bind.1 h
      · exact .failed _ (quietTrace_of_failed ha)
      · unfold registerFdAt at h'
        rw [if_neg hin, Act.runs_modify_bind] at h'
        obtain ⟨rfl, rfl, rfl⟩ := Act.runs_pure.1 h'
        rw [Int.toNat_natCast]
        split
        · next hcase =>
          exact .replaced rfl hn (by omega) ha
        · next hcase =>
          exact .placed rfl hn (by omega) (by omega) ha

/-- Freeing the slot that a registration has taken gives the table back. -/
theorem update_freed {table : FdTable} {fd : ℕ} {handle min : ℤ}
    (h : freeFd table min = some fd) :
    Function.update (Function.update table fd handle) fd 0 = table := by
  obtain ⟨-, -, hz, -⟩ := freeFd_eq_some.1 h
  rw [Function.update_idem, ← hz, Function.update_eq_self]

/-- `Pipe` as the outcome of a call. -/
theorem outcome_pipe {r : Except Errno (List ℕ)}
    (h : Act.Runs Invocation.pipe.run s trace r s') :
    Outcome .pipe s.fdTable trace r s'.fdTable := by
  rw [Invocation.run, sysPipe] at h
  unfold registerFd at h
  simp only [bind_assoc] at h
  obtain ⟨a, rest, rfl, ⟨ha, rfl, rfl, rfl⟩ | ⟨ha, h'⟩⟩ := runs_syscall_bind.1 h
  · exact .failed _ (quietTrace_of_failed ha)
  · rw [runs_registerFdMin_bind] at h'
    cases hr : freeFd s.fdTable 3 with
    | none =>
      -- No fd for the first half: nothing is closed.
      rw [hr, Option.elim_none, runs_registerFdMin_bind, hr] at h'
      simp only [closeRegistered, pure_bind, Option.elim_none] at h'
      obtain ⟨rfl, rfl, rfl⟩ := Act.runs_throw_bind.1 h'
      exact .pipeFull rfl ha hr
    | some fd =>
      rw [hr, Option.elim_some, runs_registerFdMin_bind, fdTable_setFd] at h'
      cases hw : freeFd (Function.update s.fdTable fd (a.handles.getD 0 0)) 3 with
      | none =>
        -- No fd for the second half: the first is closed again.
        rw [hw] at h'
        simp only [closeRegistered, Option.elim_none, bind_assoc, pure_bind] at h'
        obtain ⟨a', rest', rfl, h1⟩ := Act.runs_ask_bind.1 h'
        rw [Act.runs_modify_bind] at h1
        obtain ⟨rfl, rfl, rfl⟩ := Act.runs_throw_bind.1 h1
        rw [fdTable_setFd, fdTable_setFd, update_freed hr]
        exact .pipeHalf rfl ha hr hw
      | some fd' =>
        rw [hw] at h'
        simp only [Option.elim_some, pure_bind] at h'
        obtain ⟨rfl, rfl, rfl⟩ := Act.runs_pure.1 h'
        exact .pair trivial (Or.inl rfl) ha hr hw

/-- `Socketpair` as the outcome of a call. -/
theorem outcome_socketpair {domain typeAndFlags proto : ℤ} {r : Except Errno (List ℕ)}
    (h : Act.Runs (Invocation.socketpair domain typeAndFlags proto).run s trace r s') :
    Outcome (.socketpair domain typeAndFlags proto) s.fdTable trace r s'.fdTable := by
  rw [Invocation.run, sysSocketpair] at h
  unfold registerFd at h
  simp only [bind_assoc] at h
  obtain ⟨a, rest, rfl, ⟨ha, rfl, rfl, rfl⟩ | ⟨ha, h'⟩⟩ := runs_syscall_bind.1 h
  · exact .failed _ (quietTrace_of_failed ha)
  · rw [runs_registerFdMin_bind] at h'
    cases hr : freeFd s.fdTable 3 with
    | none =>
      -- No fd for the first half: both handles are closed.
      rw [hr] at h'
      simp only [Option.elim_none, pure_bind, bind_assoc] at h'
      rw [Act.runs_modify_bind] at h'
      obtain ⟨a', rest', rfl, h1⟩ := Act.runs_ask_bind.1 h'
      obtain ⟨a'', rest'', rfl, h2⟩ := Act.runs_ask_bind.1 h1
      obtain ⟨rfl, rfl, rfl⟩ := Act.runs_throw_bind.1 h2
      exact .pairFull trivial ha
    | some fd =>
      rw [hr] at h'
      simp only [Option.elim_some, bind_assoc] at h'
      rw [runs_registerFdMin_bind, fdTable_setFd] at h'
      cases hw : freeFd (Function.update s.fdTable fd (a.handles.getD 0 0)) 3 with
      | none =>
        -- No fd for the second half: the first slot is freed again, and both handles are closed.
        rw [hw] at h'
        simp only [Option.elim_none, bind_assoc] at h'
        rw [Act.runs_modify_bind] at h'
        obtain ⟨a', rest', rfl, h1⟩ := Act.runs_ask_bind.1 h'
        obtain ⟨a'', rest'', rfl, h2⟩ := Act.runs_ask_bind.1 h1
        obtain ⟨rfl, rfl, rfl⟩ := Act.runs_throw_bind.1 h2
        rw [Option.elim_some, fdTable_setFd, fdTable_setFd, update_freed hr]
        exact .pairFull trivial ha
      | some fd' =>
        rw [hw] at h'
        simp only [Option.elim_some, pure_bind] at h'
        obtain ⟨rfl, rfl, rfl⟩ := Act.runs_pure.1 h'
        exact .pair trivial (Or.inr rfl) ha hr hw

/-- `Close` as the outcome of a call. -/
theorem outcome_close {fd : ℤ} {r : Except Errno (List ℕ)}
    (h : Act.Runs (Invocation.close fd).run s trace r s') :
    Outcome (.close fd) s.fdTable trace r s'.fdTable := by
  rw [Invocation.run, sysClose] at h
  split at h
  · -- A directory's handle has no slot in the table.
    next hbase =>
    unfold closeDir at h
    rw [bind_assoc, Act.runs_get_bind] at h
    dsimp only at h
    split at h
    · obtain ⟨rfl, rfl, rfl⟩ := Act.runs_throw_bind.1 h
      exact .failed _ quietTrace_nil
    · rw [Act.runs_modify_bind] at h
      obtain ⟨rfl, rfl, rfl⟩ := Act.runs_pure.1 h
      exact .idle (Or.inr hbase) quietTrace_nil
  · -- Another fd gives up its directory stream before its handle is looked up.
    next hbase =>
    rw [bind_assoc, Act.runs_modify_bind, withHandle_bind, runs_withHandle,
      fdTable_releaseDir] at h
    split at h
    · obtain ⟨rfl, rfl, rfl⟩ := h
      rw [fdTable_releaseDir]
      exact .failed _ quietTrace_nil
    · next hhandle =>
      split at h
      · next hstd =>
        rw [pure_bind] at h
        obtain ⟨rfl, rfl, rfl⟩ := Act.runs_pure.1 h
        rw [fdTable_releaseDir]
        exact .idle (Or.inl hstd) quietTrace_nil
      · next hstd =>
        rw [bind_assoc] at h
        obtain ⟨a, rest, rfl, ⟨ha, rfl, rfl, rfl⟩ | ⟨ha, h'⟩⟩ := runs_syscall_bind.1 h
        · rw [fdTable_releaseDir]
          exact .failed _ (quietTrace_of_failed ha)
        · rw [Act.runs_modify_bind] at h'
          obtain ⟨rfl, rfl, rfl⟩ := Act.runs_pure.1 h'
          obtain ⟨n, rfl⟩ : ∃ n : ℕ, fd = n := ⟨fd.toNat, by omega⟩
          have hn : n < kMaxFd := by
            by_contra hn
            rw [handleForFd_of_not_lt (Or.inr (by omega))] at hhandle
            exact hhandle (by decide)
          rw [fdTable_setFd, fdTable_releaseDir, Int.toNat_natCast,
            handleForFd_of_lt (by omega) (by omega), Int.toNat_natCast]
          exact .closed rfl (by omega) hn ha

/-! ## Messages -/

/-- The handles of a message are registered in turn. -/
theorem runs_registerReceived {handles : List ℤ} {r : Except Errno (List ℕ × Bool)}
    (h : Act.Runs (registerReceived handles) s trace r s') :
    ∃ fds truncated, r = .ok (fds, truncated) ∧
      Registered s.fdTable handles trace fds s'.fdTable := by
  induction handles generalizing s s' trace r with
  | nil =>
    unfold registerReceived at h
    obtain ⟨rfl, rfl, rfl⟩ := Act.runs_pure.1 h
    exact ⟨[], false, rfl, .nil _⟩
  | cons handle handles ih =>
    unfold registerReceived registerFd at h
    rw [runs_registerFdMin_bind] at h
    cases hfree : freeFd s.fdTable 3 with
    | some fd =>
      rw [hfree] at h
      dsimp only [Option.elim_some] at h
      rcases Act.runs_bind.1 h with ⟨e, h1, rfl⟩ | ⟨x, mid, first, last, h1, h2, rfl⟩
      · obtain ⟨fds, truncated, he, -⟩ := ih h1
        exact absurd he (by simp)
      · obtain ⟨fds, truncated, he, hreg⟩ := ih h1
        obtain rfl := Except.ok.inj he
        obtain ⟨rfl, rfl, rfl⟩ := Act.runs_pure.1 h2
        rw [List.append_nil]
        exact ⟨fd :: fds, truncated, rfl, .kept hfree hreg⟩
    | none =>
      -- No fd is free: the handle is closed and the message counts as truncated.
      rw [hfree] at h
      dsimp only [Option.elim_none] at h
      obtain ⟨a, rest, rfl, h'⟩ := Act.runs_ask_bind.1 h
      rcases Act.runs_bind.1 h' with ⟨e, h1, rfl⟩ | ⟨x, mid, first, last, h1, h2, rfl⟩
      · obtain ⟨fds, truncated, he, -⟩ := ih h1
        exact absurd he (by simp)
      · obtain ⟨fds, truncated, he, hreg⟩ := ih h1
        obtain rfl := Except.ok.inj he
        obtain ⟨rfl, rfl, rfl⟩ := Act.runs_pure.1 h2
        rw [List.append_nil]
        exact ⟨fds, true, rfl, .closed a hfree hreg⟩

/-- A receipt from a unix socket fails, finds another socket, or registers what came. -/
theorem runs_unixMsgRecv {handle : ℤ} {room : MsgRoom} {flags : ℤ} {alloc : ℕ → Bool}
    {r : Except Errno (Option Received)}
    (h : Act.Runs (unixMsgRecv handle room flags alloc) s trace r s') :
    (QuietTrace trace ∧ s'.fdTable = s.fdTable ∧ (r = .ok none ∨ ∃ e, r = .error e)) ∨
      ∃ args a rest received, trace = (kcall .socketRecvmsg [handle] args, a) :: rest ∧
        a.ok = true ∧ r = .ok (some received) ∧
        Registered s.fdTable a.handles rest received.fds s'.fdTable := by
  unfold unixMsgRecv at h
  dsimp only at h
  split at h
  · obtain ⟨rfl, rfl, rfl⟩ := Act.runs_throw.1 h
    exact Or.inl ⟨quietTrace_nil, rfl, Or.inr ⟨_, rfl⟩⟩
  · obtain ⟨a, rest, rfl, h'⟩ := Act.runs_ask_bind.1 h
    split at h'
    · -- The call failed: another socket is to be asked in another way.
      next herr =>
      have ha : a.ok = false := by
        rw [← Bool.not_eq_true, Answer.ok_iff]
        exact herr
      split at h'
      · obtain ⟨rfl, rfl, rfl⟩ := Act.runs_pure.1 h'
        exact Or.inl ⟨quietTrace_of_failed ha, rfl, Or.inl rfl⟩
      · obtain ⟨rfl, rfl, rfl⟩ := Act.runs_throw.1 h'
        exact Or.inl ⟨quietTrace_of_failed ha, rfl, Or.inr ⟨_, rfl⟩⟩
    · next herr =>
      have ha : a.ok = true := Answer.ok_iff.2 (not_not.1 herr)
      rcases Act.runs_bind.1 h' with ⟨e, h1, rfl⟩ | ⟨x, mid, first, last, h1, h2, rfl⟩
      · obtain ⟨fds, truncated, he, -⟩ := runs_registerReceived h1
        exact absurd he (by simp)
      · obtain ⟨fds, truncated, he, hreg⟩ := runs_registerReceived h1
        obtain rfl := Except.ok.inj he
        obtain ⟨rfl, rfl, rfl⟩ := Act.runs_pure.1 h2
        rw [List.append_nil]
        exact Or.inr ⟨_, a, first, _, rfl, ha, rfl, hreg⟩

/-- Asking for a socket's type is quiet. -/
theorem quietSys_socketIsDatagram (handle : ℤ) : QuietSys (socketIsDatagram handle) :=
  quietSys_bind (quietSys_ask rfl) fun _ => quietSys_pure _

/-- A receive neither opens nor closes. -/
theorem plain_socketRecvOne (handle : ℤ) (size : ℕ) (flags : ℤ) (name : Option ℕ) :
    (socketRecvOne handle size flags name).number.plain = true := by
  unfold socketRecvOne
  split <;> rfl

/-- Receiving pieces is quiet. -/
theorem quietSys_recvPieces (handle flags : ℤ) (lengths : List ℕ) (total : ℤ)
    (pieces : List (List Byte)) : QuietSys (recvPieces handle flags lengths total pieces) := by
  induction lengths generalizing total pieces with
  | nil =>
    unfold recvPieces
    exact quietSys_pure _
  | cons n rest ih =>
    unfold recvPieces
    split
    · exact ih _ _
    · refine quietSys_bind (quietSys_ask rfl) fun a => ?_
      dsimp only
      split
      · split
        · exact quietSys_pure _
        · exact quietSys_throw _
      · split
        · exact quietSys_pure _
        · exact ih _ _

/-- On another socket `MsgRecv` makes quiet calls and stores no fds. -/
theorem runs_plainMsgRecv {handle : ℤ} {room : MsgRoom} {flags : ℤ} {alloc : ℕ → Bool}
    {r : Except Errno Received} (h : Act.Runs (plainMsgRecv handle room flags alloc) s trace r s') :
    QuietTrace trace ∧ s'.fdTable = s.fdTable ∧ ∀ received, r = .ok received →
      received.fds = [] := by
  -- Neither asking for the type nor receiving grants a handle.
  have hquiet : QuietSys (plainMsgRecv handle room flags alloc) := by
    unfold plainMsgRecv
    refine quietSys_bind (quietSys_socketIsDatagram handle) fun datagram => ?_
    dsimp only
    split
    · split
      · exact quietSys_throw _
      · exact quietSys_bind (quietSys_syscall (plain_socketRecvOne _ _ _ _)) fun _ =>
          quietSys_pure _
    · exact quietSys_bind (quietSys_recvPieces _ _ _ _ _) fun _ => quietSys_pure _
  obtain ⟨hq, ht⟩ := hquiet _ _ _ _ h
  refine ⟨hq, ht, ?_⟩
  rintro received rfl
  unfold plainMsgRecv at h
  rcases Act.runs_bind.1 h with ⟨e, -, he⟩ | ⟨datagram, mid, first, last, -, h2, -⟩
  · exact absurd he (by simp)
  · dsimp only at h2
    split at h2
    · split at h2
      · exact absurd (Act.runs_throw.1 h2).2.1 (by simp)
      · obtain ⟨a, rest, -, ⟨-, -, he, -⟩ | ⟨-, h3⟩⟩ := runs_syscall_bind.1 h2
        · exact absurd he (by simp)
        · obtain rfl := Except.ok.inj (Act.runs_pure.1 h3).2.1
          rfl
    · rcases Act.runs_bind.1 h2 with ⟨e, -, he⟩ | ⟨x, mid', first', last', -, h3, -⟩
      · exact absurd he (by simp)
      · obtain rfl := Except.ok.inj (Act.runs_pure.1 h3).2.1
        rfl

/-- `MsgRecv` as the outcome of a call. -/
theorem outcome_msgRecv {fd : ℤ} {room : MsgRoom} {flags : ℤ} {alloc : ℕ → Bool}
    {r : Except Errno (List ℕ)}
    (h : Act.Runs (Invocation.msgRecv fd room flags alloc).run s trace r s') :
    Outcome (.msgRecv fd room flags alloc) s.fdTable trace r s'.fdTable := by
  rw [Invocation.run, sysMsgRecv, withHandle_bind, runs_withHandle] at h
  split at h
  · obtain ⟨rfl, rfl, rfl⟩ := h
    exact .failed _ quietTrace_nil
  · rw [bind_assoc] at h
    rcases Act.runs_bind.1 h with ⟨e, h1, rfl⟩ | ⟨x, mid, first, last, h1, h2, rfl⟩
    · rcases runs_unixMsgRecv h1 with ⟨hq, ht, -⟩ | ⟨args, a, rest, received, -, -, he, -⟩
      · rw [ht]
        exact .failed e hq
      · exact absurd he (by simp)
    · rcases runs_unixMsgRecv h1 with ⟨hq, ht, he | ⟨e, he⟩⟩ | ⟨args, a, rest, received, rfl, ha,
        he, hreg⟩
      · obtain rfl := Except.ok.inj he
        dsimp only at h2
        rcases Act.runs_bind.1 h2 with ⟨e, h3, rfl⟩ | ⟨x, mid', first', last', h3, h4, rfl⟩
        · obtain ⟨hq', ht', -⟩ := runs_plainMsgRecv h3
          rw [ht', ht]
          exact .failed e (quietTrace_append.2 ⟨hq, hq'⟩)
        · obtain ⟨hq', ht', hfds⟩ := runs_plainMsgRecv h3
          obtain ⟨rfl, rfl, rfl⟩ := Act.runs_pure.1 h4
          rw [hfds x rfl, ht', ht, List.append_nil]
          exact .idle trivial (quietTrace_append.2 ⟨hq, hq'⟩)
      · exact absurd he (by simp)
      · obtain rfl := Except.ok.inj he
        rw [pure_bind] at h2
        obtain ⟨rfl, rfl, rfl⟩ := Act.runs_pure.1 h2
        rw [List.append_nil]
        exact .received ⟨_, _, _, _, rfl⟩ ha hreg

/-! ## Ioctls -/

/-- A slot becomes a new fd, unless it is none or the table is full. -/
theorem runs_fdForSlot {slot : ℤ} {r : Except Errno ℤ} (h : Act.Runs (fdForSlot slot) s trace r s') :
    (slot < 0 ∧ trace = [] ∧ r = .ok (-1) ∧ s' = s) ∨
    (0 ≤ slot ∧ ∃ fd, freeFd s.fdTable 3 = some fd ∧ trace = [] ∧ r = .ok fd ∧
      s' = s.setFd fd (kFileHandleType + slot)) ∨
    (0 ≤ slot ∧ freeFd s.fdTable 3 = none ∧
      ∃ a, trace = [(kcall .close [kFileHandleType + slot] [], a)] ∧ r = .ok (-1) ∧ s' = s) := by
  unfold fdForSlot registerFd at h
  split at h
  · next hneg =>
    obtain ⟨rfl, rfl, rfl⟩ := Act.runs_pure.1 h
    exact Or.inl ⟨hneg, rfl, rfl, rfl⟩
  · next hpos =>
    have hslot : 0 ≤ slot := by omega
    right
    rw [runs_registerFdMin_bind] at h
    cases hfree : freeFd s.fdTable 3 with
    | some fd =>
      rw [hfree] at h
      obtain ⟨rfl, rfl, rfl⟩ := Act.runs_pure.1 h
      exact Or.inl ⟨hslot, fd, rfl, rfl, rfl, rfl⟩
    | none =>
      rw [hfree] at h
      obtain ⟨a, rest, rfl, h'⟩ := Act.runs_ask_bind.1 h
      obtain ⟨rfl, rfl, rfl⟩ := Act.runs_pure.1 h'
      exact Or.inr ⟨hslot, rfl, a, rfl, rfl, rfl⟩

/-- What is done with the slots in a struct: nothing when there is none, else an fd is made of the
one slot, or is missing. -/
inductive SlotOutcome (s : Libc) (block : Block) :
    List ℕ → List (KCall × Answer) → Block × Bool → Libc → Prop
  | none (after : Block) : SlotOutcome s block [] [] (after, false) s
  | missing {offset : ℕ} (after : Block) : get32 block offset < 0 →
    SlotOutcome s block [offset] [] (after, true) s
  | made {offset fd : ℕ} {after : Block} : 0 ≤ get32 block offset →
    freeFd s.fdTable 3 = some fd → get32 after offset = fd →
    SlotOutcome s block [offset] [] (after, false)
      (s.setFd fd (kFileHandleType + get32 block offset))
  | full {offset : ℕ} (a : Answer) (after : Block) : 0 ≤ get32 block offset →
    freeFd s.fdTable 3 = none →
    SlotOutcome s block [offset]
      [(kcall .close [kFileHandleType + get32 block offset] [], a)] (after, true) s

/-- The fd of the slot at an offset, stored in its place. -/
theorem slotOutcome_of_fdForSlot {block bytes : Block} {offset : ℕ}
    (hsame : get32 bytes offset = get32 block offset) {r : Except Errno (Block × Bool)}
    (h : Act.Runs (do
      let fd ← fdForSlot (get32 bytes offset)
      pure (put32 bytes offset fd, decide (fd < 0)) : Sys (Block × Bool)) s trace r s') :
    ∃ result, r = .ok result ∧ SlotOutcome s block [offset] trace result s' := by
  rw [hsame] at h
  rcases Act.runs_bind.1 h with ⟨e, h1, rfl⟩ | ⟨fd, mid, first, last, h1, h2, rfl⟩
  · rcases runs_fdForSlot h1 with ⟨-, -, he, -⟩ | ⟨-, fd, -, -, he, -⟩ | ⟨-, -, a, -, he, -⟩ <;>
      exact absurd he (by simp)
  · obtain ⟨rfl, rfl, rfl⟩ := Act.runs_pure.1 h2
    refine ⟨_, rfl, ?_⟩
    rw [List.append_nil]
    rcases runs_fdForSlot h1 with ⟨hneg, rfl, he, rfl⟩ | ⟨hpos, n, hfree, rfl, he, rfl⟩ |
      ⟨hpos, hfree, a, rfl, he, rfl⟩
    · obtain rfl := Except.ok.inj he
      exact .missing _ hneg
    · obtain rfl := Except.ok.inj he
      have hlt : n < 256 := (freeFd_eq_some.1 hfree).2.1
      have hdec : decide ((n : ℤ) < 0) = false := by simp
      rw [hdec]
      exact .made hpos hfree (get32_put32 _ _ hlt)
    · obtain rfl := Except.ok.inj he
      exact .full a _ hpos hfree

/-- The fd fields of a struct: none, one, or those of a merge. -/
theorem fieldsOf_cases (request : ℕ) :
    fieldsOf request = [] ∨ (∃ f, fieldsOf request = [f]) ∨
      fieldsOf request = [⟨'>'.toNat, 3, 32, false⟩, ⟨'>'.toNat, 3, 36, true⟩] := by
  unfold fieldsOf
  generalize requestType request = type
  generalize requestNr request = nr
  -- The fields that share the key of one of the table are that one alone, or those of a merge.
  have hkeys : ∀ f ∈ kFdFields,
      ((kFdFields.filter fun g => g.type = f.type ∧ g.nr = f.nr).take 2 = [f]) ∨
      (kFdFields.filter fun g => g.type = f.type ∧ g.nr = f.nr).take 2 =
        [⟨'>'.toNat, 3, 32, false⟩, ⟨'>'.toNat, 3, 36, true⟩] := by decide
  cases hfilter : kFdFields.filter fun g => g.type = type ∧ g.nr = nr with
  | nil => exact Or.inl rfl
  | cons f rest =>
    have hf : f ∈ kFdFields.filter fun g => g.type = type ∧ g.nr = nr := by
      rw [hfilter]
      exact List.mem_cons_self
    obtain ⟨hmem, hkey⟩ := List.mem_filter.1 hf
    simp only [decide_eq_true_eq] at hkey
    obtain ⟨rfl, rfl⟩ := hkey
    rw [← hfilter]
    rcases hkeys f hmem with h | h
    · exact Or.inr (Or.inl ⟨f, h⟩)
    · exact Or.inr (Or.inr h)

/-- An execbuffer has none. -/
theorem fieldsOf_execbuffer {request : ℕ} (h : isExecbuffer request = true) :
    fieldsOf request = [] := by
  unfold isExecbuffer at h
  simp only [Bool.and_eq_true, decide_eq_true_eq] at h
  unfold fieldsOf
  rw [h.1, h.2]
  decide

/-- The last field of a struct, when it is an out field, holds the fd of its slot. -/
theorem restoreFields_out {f : FdField} (h : f.out = true) (value : ℤ) (bytes : Block) :
    restoreFields false [(f, value)] bytes = (do
      let fd ← fdForSlot (get32 bytes f.offset)
      pure (put32 bytes f.offset fd, decide (fd < 0))) := by
  simp only [restoreFields, h, if_false, if_true, Bool.true_eq_false]
  congr 1
  funext fd
  split
  · next hneg => rw [decide_eq_true hneg]
  · next hpos => rw [decide_eq_false hpos]

/-- Without an execbuffer, only the fields are restored. -/
theorem ioctlAfter_of_not_exec {table : FdTable} {request : ℕ} {bytes : Block} {a : Answer}
    (hexec : isExecbuffer request = false) :
    ioctlAfter table request bytes a =
      restoreFields (decide (scError a.ret ≠ 0)) (translateIn table (fieldsOf request) bytes).2
        a.block := by
  have htail : (fun x : Block × Bool =>
      if x.2 = true then (pure (x.1, true) : Sys (Block × Bool))
      else if isExecbuffer request = true then
        restoreExec (decide (scError a.ret ≠ 0)) (ioctlSent table request bytes) (get32 bytes 56) x.1
      else pure (x.1, false)) = pure := by
    funext x
    obtain ⟨restored, full⟩ := x
    rw [hexec]
    cases full <;> rfl
  calc ioctlAfter table request bytes a
      = restoreFields (decide (scError a.ret ≠ 0)) (translateIn table (fieldsOf request) bytes).2
          a.block >>= _ := rfl
    _ = restoreFields (decide (scError a.ret ≠ 0)) (translateIn table (fieldsOf request) bytes).2
          a.block >>= pure := by rw [htail]
    _ = _ := bind_pure _

/-- The offsets of the fields of a request that the kernel reads an fd from. -/
def fieldsIn (request : ℕ) : List ℕ := ((fieldsOf request).filter (!·.out)).map (·.offset)

/-- The places that are put back: the in-fields and the low half of an execbuffer's `rsvd2`. -/
def keptOffsets (request : ℕ) : List ℕ :=
  fieldsIn request ++ if isExecbuffer request then [56] else []

/-- The kernel's struct with the fds of the caller put back. -/
def putBack (request : ℕ) (bytes block : Block) : Block :=
  (keptOffsets request).foldl (fun b o => put32 b o (get32 bytes o)) block

/-- The request that submits a batch has no fd field of its own. -/
theorem fieldsIn_execbuffer {request : ℕ} (h : isExecbuffer request = true) :
    fieldsIn request = [] := by
  rw [fieldsIn, fieldsOf_execbuffer h]
  rfl

/-- At most one place is put back. -/
theorem keptOffsets_cases (request : ℕ) :
    keptOffsets request = [] ∨ ∃ o, keptOffsets request = [o] := by
  unfold keptOffsets
  cases hexec : isExecbuffer request with
  | true =>
    rw [fieldsIn_execbuffer hexec]
    exact Or.inr ⟨56, rfl⟩
  | false =>
    simp only [Bool.false_eq_true, if_false, List.append_nil]
    unfold fieldsIn
    rcases fieldsOf_cases request with hf | ⟨f, hf⟩ | hf <;> rw [hf]
    · exact Or.inl rfl
    · cases hout : f.out with
      | true => exact Or.inl (by simp [hout])
      | false => exact Or.inr ⟨f.offset, by simp [hout]⟩
    · exact Or.inr ⟨32, rfl⟩

/-- What is put back ends before the slot, which is the kernel's. -/
theorem get32_putBack {request offset : ℕ} (bytes block : Block)
    (h : ∀ k ∈ keptOffsets request, k + 4 ≤ offset) :
    get32 (putBack request bytes block) offset = get32 block offset := by
  unfold putBack
  rcases keptOffsets_cases request with hk | ⟨o, hk⟩ <;> rw [hk] at h ⊢
  · rfl
  · exact get32_put32_of_disjoint block _ (Or.inl (h o List.mem_cons_self))

/-- After the kernel's answer the caller's fds are put back, and the one slot, if any, becomes an
fd. A failed call has no slots. -/
theorem ioctlAfter_cases (table : FdTable) (request : ℕ) (bytes : Block) (a : Answer) :
    ((if a.ok then outOffsets request (ioctlSent table request bytes) else []) = [] ∧
      ioctlAfter table request bytes a = pure (putBack request bytes a.block, false)) ∨
    (a.ok = true ∧ ∃ o, outOffsets request (ioctlSent table request bytes) = [o] ∧
      (∀ k ∈ keptOffsets request, k + 4 ≤ o) ∧
      ioctlAfter table request bytes a = (do
        let fd ← fdForSlot (get32 (putBack request bytes a.block) o)
        pure (put32 (putBack request bytes a.block) o fd, decide (fd < 0)))) := by
  have hok : decide (scError a.ret ≠ 0) = !a.ok := by
    unfold Answer.ok
    simp
  unfold putBack
  cases hexec : isExecbuffer request with
  | true =>
    -- An execbuffer has no other fd fields.
    have hkept : keptOffsets request = [56] := by
      rw [keptOffsets, fieldsIn_execbuffer hexec, hexec]
      rfl
    have hoffsets : outOffsets request (ioctlSent table request bytes) =
        if execFenceOut (ioctlSent table request bytes) then [60] else [] := by
      unfold outOffsets
      rw [fieldsOf_execbuffer hexec, hexec]
      simp
    have hafter : ioctlAfter table request bytes a =
        restoreExec (!a.ok) (ioctlSent table request bytes) (get32 bytes 56) a.block := by
      unfold ioctlAfter
      rw [hok]
      dsimp only
      rw [fieldsOf_execbuffer hexec]
      simp only [translateIn, restoreFields, pure_bind, hexec, if_true, Bool.false_eq_true,
        if_false]
    rw [hkept, hoffsets, hafter]
    unfold restoreExec
    cases ha : a.ok with
    | false => exact Or.inl ⟨rfl, rfl⟩
    | true =>
      cases hfence : execFenceOut (ioctlSent table request bytes) with
      | false => exact Or.inl ⟨rfl, rfl⟩
      | true => exact Or.inr ⟨rfl, 60, rfl, by simp, rfl⟩
  | false =>
    have hkept : keptOffsets request = fieldsIn request := by
      unfold keptOffsets
      rw [hexec]
      simp
    have hoffsets : outOffsets request (ioctlSent table request bytes) =
        ((fieldsOf request).filter (·.out)).map (·.offset) := by
      unfold outOffsets
      rw [hexec]
      simp
    rw [hkept, hoffsets, ioctlAfter_of_not_exec hexec, hok]
    unfold fieldsIn
    rcases fieldsOf_cases request with hf | ⟨f, hf⟩ | hf <;> rw [hf]
    · exact Or.inl ⟨ite_self _, rfl⟩
    · cases hout : f.out with
      | false =>
        left
        simp [translateIn, restoreFields, hout]
      | true =>
        simp only [List.filter_cons, hout, Bool.not_true, Bool.false_eq_true, if_false, if_true,
          List.filter_nil, List.map_cons, List.map_nil, List.foldl_nil]
        cases ha : a.ok with
        | false =>
          left
          simp [translateIn, restoreFields, hout]
        | true =>
          right
          refine ⟨rfl, f.offset, rfl, by simp, ?_⟩
          simp only [translateIn, Bool.not_true]
          rw [restoreFields_out hout]
    · cases ha : a.ok with
      | false => exact Or.inl ⟨rfl, rfl⟩
      | true =>
        right
        refine ⟨rfl, 36, rfl, by simp, ?_⟩
        simp only [translateIn, Bool.not_true]
        rw [restoreFields, if_pos rfl, restoreFields_out rfl]
        rfl

/-- What is done with the struct after the kernel's answer. A failed call has no slots. -/
theorem runs_ioctlAfter {table : FdTable} {request : ℕ} {bytes : Block} {a : Answer}
    {r : Except Errno (Block × Bool)}
    (h : Act.Runs (ioctlAfter table request bytes a) s trace r s') :
    ∃ result, r = .ok result ∧
      SlotOutcome s a.block
        (if a.ok then outOffsets request (ioctlSent table request bytes) else [])
        trace result s' := by
  rcases ioctlAfter_cases table request bytes a with ⟨hnone, hafter⟩ | ⟨ha, o, hout, hkept, hafter⟩
  · rw [hafter] at h
    rw [hnone]
    obtain ⟨rfl, rfl, rfl⟩ := Act.runs_pure.1 h
    exact ⟨_, rfl, .none _⟩
  · rw [hafter] at h
    rw [ha, if_pos rfl, hout]
    exact slotOutcome_of_fdForSlot (get32_putBack bytes a.block hkept) h

/-- What an ioctl grants: the handles of the slots that the kernel has stored. -/
theorem granted_ioctl {handle : ℤ} {request : ℕ} {sent : Block} {a : Answer} :
    granted ⟨.ioctl, [handle], [(request : ℤ)], [], some sent⟩ a =
      if a.ok then ((outOffsets request sent).map (get32 a.block)).filterMap fun slot =>
        if 0 ≤ slot then some (kFileHandleType + slot) else none
      else [] := rfl

/-- An ioctl whose answer has no slot is quiet. -/
theorem quiet_ioctl {handle : ℤ} {request : ℕ} {sent : Block} {a : Answer}
    (h : a.ok = true → ∀ offset ∈ outOffsets request sent, get32 a.block offset < 0) :
    Quiet ⟨.ioctl, [handle], [(request : ℤ)], [], some sent⟩ a := by
  constructor
  · rw [granted_ioctl]
    split
    · next ha =>
      rw [List.filterMap_eq_nil_iff]
      intro slot hslot
      obtain ⟨offset, hoffset, rfl⟩ := List.mem_map.1 hslot
      have hneg := h ha offset hoffset
      rw [if_neg (by omega)]
    · rfl
  · intro _
    exact ⟨by simp, by simp⟩

/-- An ioctl without an argument is quiet. -/
theorem quiet_ioctl_none {handle : ℤ} {request : ℕ} {a : Answer} :
    Quiet (kcall .ioctl [handle] [(request : ℤ)]) a := by
  refine ⟨?_, fun _ => ⟨by simp [kcall], by simp [kcall]⟩⟩
  show (if a.ok = true then [] else []) = ([] : List ℤ)
  exact ite_self _

/-- `Ioctl` as the outcome of a call. -/
theorem outcome_ioctl {fd : ℤ} {request : ℕ} {arg : Option Block} {r : Except Errno (List ℕ)}
    (h : Act.Runs (Invocation.ioctl fd request arg).run s trace r s') :
    Outcome (.ioctl fd request arg) s.fdTable trace r s'.fdTable := by
  rw [Invocation.run, Act.runs_get_bind, sysIoctl, withHandle_bind, runs_withHandle] at h
  split at h
  · obtain ⟨rfl, rfl, rfl⟩ := h
    exact .failed _ quietTrace_nil
  · rw [bind_assoc, Act.runs_get_bind] at h
    cases arg with
    | none =>
      dsimp only at h
      rw [bind_assoc] at h
      obtain ⟨a, rest, rfl, h1⟩ := Act.runs_ask_bind.1 h
      have hquiet : QuietTrace [(kcall .ioctl [handleForFd s.fdTable fd] [(request : ℤ)], a)] :=
        quietTrace_cons.2 ⟨quiet_ioctl_none, quietTrace_nil⟩
      rw [pure_bind] at h1
      dsimp only at h1
      split at h1
      · next hstatus =>
        obtain ⟨rfl, rfl, rfl⟩ := Act.runs_pure.1 h1
        exact .idle trivial hquiet
      · next hstatus =>
        obtain ⟨rfl, rfl, rfl⟩ := Act.runs_throw.1 h1
        exact .failed _ hquiet
    | some bytes =>
      dsimp only at h
      rw [bind_assoc] at h
      obtain ⟨a, rest, rfl, h1⟩ := Act.runs_ask_bind.1 h
      rw [bind_assoc] at h1
      rcases Act.runs_bind.1 h1 with ⟨e, h2, rfl⟩ | ⟨x, mid, first, last, h2, h3, rfl⟩
      · obtain ⟨result, he, -⟩ := runs_ioctlAfter h2
        exact absurd he (by simp)
      · obtain ⟨result, he, hslot⟩ := runs_ioctlAfter h2
        obtain rfl := Except.ok.inj he
        obtain ⟨after, full⟩ := x
        rw [pure_bind] at h3
        dsimp only at h3
        cases ha : a.ok with
        | false =>
          -- The slots of the answer are not looked at.
          have herr : scError a.ret ≠ 0 := by
            intro h0
            rw [Answer.ok_iff.2 h0] at ha
            exact absurd ha (by decide)
          rw [ha, if_neg Bool.false_ne_true] at hslot
          cases hslot
          rw [if_neg Bool.false_ne_true, if_pos herr] at h3
          obtain ⟨rfl, rfl, rfl⟩ := Act.runs_throw.1 h3
          exact .failed _ (quietTrace_of_failed ha)
        | true =>
          have herr : ¬ scError a.ret ≠ 0 := not_not.2 (Answer.ok_iff.1 ha)
          rw [ha, if_pos rfl] at hslot
          generalize hoffsets : outOffsets request (ioctlSent s.fdTable request bytes) = offsets
            at hslot
          -- What was done for the slot that the request has in its answer, if any.
          cases hslot with
          | none _ =>
            rw [if_neg Bool.false_ne_true, if_neg herr] at h3
            obtain ⟨rfl, rfl, rfl⟩ := Act.runs_pure.1 h3
            have hfds : ioctlFds s'.fdTable request (some bytes) (some after) = [] := by
              show (outOffsets request (ioctlSent s'.fdTable request bytes)).map _ = []
              rw [hoffsets]
              rfl
            rw [hfds]
            refine .idle trivial (quietTrace_cons.2 ⟨quiet_ioctl fun _ offset ho => ?_,
              quietTrace_nil⟩)
            rw [hoffsets] at ho
            exact absurd ho List.not_mem_nil
          | missing _ hneg =>
            rw [if_pos rfl] at h3
            obtain ⟨rfl, rfl, rfl⟩ := Act.runs_throw.1 h3
            refine .failed _ (quietTrace_cons.2 ⟨quiet_ioctl fun _ offset ho => ?_,
              quietTrace_nil⟩)
            rw [hoffsets, List.mem_singleton] at ho
            rw [ho]
            exact hneg
          | made hpos hfree hget =>
            rw [if_neg Bool.false_ne_true, if_neg herr] at h3
            obtain ⟨rfl, rfl, rfl⟩ := Act.runs_pure.1 h3
            rename_i offset fd'
            have hfds : ioctlFds s.fdTable request (some bytes) (some after) = [fd'] := by
              show (outOffsets request (ioctlSent s.fdTable request bytes)).map _ = _
              rw [hoffsets, List.map_singleton, hget, Int.toNat_natCast]
            rw [hfds]
            refine outcome_opened trivial ha ?_ ⟨by simp, by simp⟩ hfree
            rw [granted_ioctl, hoffsets, if_pos ha]
            simp [hpos]
          | full a' _ hpos hfree =>
            rw [if_pos rfl] at h3
            obtain ⟨rfl, rfl, rfl⟩ := Act.runs_throw.1 h3
            refine outcome_full a' trivial ha ?_ ⟨by simp, by simp⟩ hfree
            rw [granted_ioctl, hoffsets, if_pos ha]
            simp [hpos]

/-- Every run of a call has one of the outcomes. -/
theorem run_outcome {i : Invocation} {r : Except Errno (List ℕ)}
    (h : Act.Runs i.run s trace r s') : Outcome i s.fdTable trace r s'.fdTable := by
  cases i with
  | «open» path flags mode =>
    rw [Invocation.run] at h
    exact outcome_of_oneHandle (i := .open path flags mode)
      (oneHandle_sysOpen path flags mode) rfl trivial h
  | openat dirfd path flags mode =>
    rw [Invocation.run] at h
    exact outcome_of_oneHandle (i := .openat dirfd path flags mode)
      (oneHandle_sysOpenat dirfd path flags mode) rfl trivial h
  | dup fd =>
    rw [Invocation.run] at h
    exact outcome_of_oneHandle (i := .dup fd)
      (oneHandle_sysDup fd) rfl trivial h
  | dup2 fd newfd => exact outcome_dup2 h
  | fcntl fd request arg => exact outcome_fcntl h
  | pipe => exact outcome_pipe h
  | socket family type protocol =>
    rw [Invocation.run] at h
    exact outcome_of_oneHandle (i := .socket family type protocol)
      (oneHandle_sysSocket family type protocol) rfl trivial h
  | accept fd =>
    rw [Invocation.run] at h
    exact outcome_of_oneHandle (i := .accept fd)
      (oneHandle_sysAccept fd) rfl trivial h
  | socketpair domain typeAndFlags proto => exact outcome_socketpair h
  | msgRecv fd room flags alloc => exact outcome_msgRecv h
  | ioctl fd request arg => exact outcome_ioctl h
  | close fd => exact outcome_close h

/-- An event has one of the outcomes of its call. -/
theorem event_outcome (p : Process) (e : Event) :
    Outcome e.call p.libc.fdTable (p.trace e) (p.result e) (p.step e).libc.fdTable :=
  run_outcome (event_runs p e)

end IUserApps.Sysdeps
