import IUserApps.Sysdeps.Lookup

/-!
# Handles and their slots

Every handle that the kernel has granted and that is still open should be held by exactly one slot.
`Owned pending` says so of all open handles but those that a call has been granted and not yet
registered. A grant adds to `pending`, a registration and a close take from it, so that at the end
of a call none is pending, unless the call forgets a handle: `Pipe` does when it finds less than two
free slots, and a dup to fd 0 overwrites the handle of stdin.
-/

namespace IUserApps.Sysdeps

open Interact Runs

/-- The slot of an fd holds a handle. A slot from 3 on that contains 0 is free. -/
def Holds (table : FdTable) (fd : ℕ) (handle : ℤ) : Prop :=
  fd < kMaxFd ∧ (fd < 3 ∨ table fd ≠ 0) ∧ table fd = handle

/-- Every open handle but the pending ones is held by exactly one slot, and the slots hold open
handles. -/
structure Owned (pending : List ℤ) (live : Live) (table : FdTable) : Prop where
  held : ∀ h ∈ live, h ∉ pending → ∃! fd, Holds table fd h
  entries : ∀ fd < kMaxFd, table fd ≠ 0 → table fd ∈ live ∧ table fd ∉ pending
  pending_live : ∀ h ∈ pending, h ∈ live ∧ 2 < h
  nodup : pending.Nodup
  stdout : table 1 ≠ 0
  stderr : table 2 ≠ 0

section
variable {pending : List ℤ} {live : Live} {table : FdTable} {handle : ℤ} {fd : ℕ}

/-- At the start each standard stream holds its handle. -/
theorem owned_initial : Owned [] initialLive initialTable where
  held := by
    intro h hmem _
    have hslot : ∀ k : ℕ, k < 3 → initialTable k = k := by decide
    obtain ⟨n, hn, rfl⟩ : ∃ n : ℕ, n < 3 ∧ h = n := by
      rcases hmem with rfl | rfl | rfl
      · exact ⟨0, by decide, rfl⟩
      · exact ⟨1, by decide, rfl⟩
      · exact ⟨2, by decide, rfl⟩
    refine ⟨n, ⟨by unfold kMaxFd; omega, Or.inl hn, hslot n hn⟩, ?_⟩
    rintro k ⟨-, hcase, hk⟩
    have hlt : k < 3 := by
      rcases hcase with hlt | hne
      · exact hlt
      · by_contra hge
        unfold initialTable at hne
        rw [if_neg (by omega), if_neg (by omega)] at hne
        exact hne rfl
    rw [hslot k hlt] at hk
    exact Int.ofNat.inj hk
  entries := by
    intro k _ hne
    unfold initialTable at hne ⊢
    split_ifs at hne ⊢
    · exact ⟨Or.inr (Or.inl rfl), List.not_mem_nil⟩
    · exact ⟨Or.inr (Or.inr rfl), List.not_mem_nil⟩
    · exact absurd rfl hne
  pending_live := fun h hmem => absurd hmem List.not_mem_nil
  nodup := List.nodup_nil
  stdout := by decide
  stderr := by decide

/-- A slot that contains 0 is stdin's or none of the standard ones. -/
theorem Owned.slot_of_zero (h : Owned pending live table) (hz : table fd = 0) : fd = 0 ∨ 3 ≤ fd := by
  have h1 : fd ≠ 1 := by
    rintro rfl
    exact h.stdout hz
  have h2 : fd ≠ 2 := by
    rintro rfl
    exact h.stderr hz
  omega

/-- New handles are pending. -/
theorem Owned.grant (h : Owned [] live table) {handles : List ℤ}
    (hfresh : ∀ x ∈ handles, Fresh live x) (hnodup : handles.Nodup) :
    Owned handles (live ∪ {x | x ∈ handles}) table where
  held := by
    intro x hx hnot
    refine h.held x ?_ List.not_mem_nil
    rcases hx with hx | hx
    · exact hx
    · exact absurd hx hnot
  entries := by
    intro k hk hne
    have hlive := (h.entries k hk hne).1
    exact ⟨Or.inl hlive, fun hmem => (hfresh _ hmem).1 hlive⟩
  pending_live := fun x hx => ⟨Or.inr hx, (hfresh x hx).2⟩
  nodup := hnodup
  stdout := h.stdout
  stderr := h.stderr

/-- A pending handle is stored in a slot that contains 0. Slot 0 may only be taken when handle 0 is
not open. -/
theorem Owned.register (h : Owned (handle :: pending) live table) (hfd : fd < kMaxFd)
    (hz : table fd = 0) (hstd : 3 ≤ fd ∨ 0 ∉ live) :
    Owned pending live (Function.update table fd handle) := by
  have hlive := h.pending_live handle List.mem_cons_self
  have hnew := (List.nodup_cons.1 h.nodup).1
  refine ⟨?_, ?_, fun x hx => h.pending_live x (List.mem_cons_of_mem _ hx),
    (List.nodup_cons.1 h.nodup).2, ?_, ?_⟩
  · -- An open handle: the new one is in the new slot only, the others where they were.
    intro x hx hnot
    by_cases hxh : x = handle
    · -- No other slot holds it, since it was pending.
      subst hxh
      refine ⟨fd, ⟨hfd, Or.inr ?_, Function.update_self ..⟩, ?_⟩
      · rw [Function.update_self]
        omega
      · rintro k ⟨hk, -, hkx⟩
        by_contra hne
        rw [Function.update_of_ne hne] at hkx
        have hentry := (h.entries k hk (by omega)).2
        rw [hkx] at hentry
        exact hentry List.mem_cons_self
    · obtain ⟨k, ⟨hk, hcase, hkx⟩, huniq⟩ := h.held x hx (by
        rw [List.mem_cons]
        exact not_or.2 ⟨hxh, hnot⟩)
      -- The slot that is filled held 0, which is no handle of an open fd from 3 on.
      have hne : k ≠ fd := by
        rintro rfl
        rw [hz] at hkx
        subst hkx
        rcases hstd with h3 | h0
        · rcases hcase with hlt | hne
          · omega
          · exact hne hz
        · exact h0 hx
      refine ⟨k, ⟨hk, ?_, ?_⟩, ?_⟩
      · rwa [Function.update_of_ne hne]
      · rwa [Function.update_of_ne hne]
      · rintro k' ⟨hk', hcase', hkx'⟩
        have hne' : k' ≠ fd := by
          rintro rfl
          rw [Function.update_self] at hkx'
          exact hxh hkx'.symm
        rw [Function.update_of_ne hne'] at hcase' hkx'
        exact huniq k' ⟨hk', hcase', hkx'⟩
  · -- A slot with a handle: the filled one holds an open handle that is pending no longer.
    intro k hk hne
    by_cases hkfd : k = fd
    · subst hkfd
      rw [Function.update_self]
      exact ⟨hlive.1, hnew⟩
    · rw [Function.update_of_ne hkfd] at hne ⊢
      obtain ⟨hmem, hnot⟩ := h.entries k hk hne
      exact ⟨hmem, fun hp => hnot (List.mem_cons_of_mem _ hp)⟩
  · have hne : 1 ≠ fd := by
      rintro rfl
      exact h.stdout hz
    rw [Function.update_of_ne hne]
    exact h.stdout
  · have hne : 2 ≠ fd := by
      rintro rfl
      exact h.stderr hz
    rw [Function.update_of_ne hne]
    exact h.stderr

/-- A pending handle is closed. -/
theorem Owned.drop (h : Owned (handle :: pending) live table) :
    Owned pending (live \ {handle}) table where
  held := by
    rintro x ⟨hx, hne⟩ hnot
    refine h.held x hx ?_
    rw [List.mem_cons]
    exact not_or.2 ⟨hne, hnot⟩
  entries := by
    intro k hk hne
    obtain ⟨hmem, hnot⟩ := h.entries k hk hne
    rw [List.mem_cons] at hnot
    obtain ⟨hne', hnot'⟩ := not_or.1 hnot
    exact ⟨⟨hmem, hne'⟩, hnot'⟩
  pending_live := by
    intro x hx
    obtain ⟨hmem, hlt⟩ := h.pending_live x (List.mem_cons_of_mem _ hx)
    refine ⟨⟨hmem, ?_⟩, hlt⟩
    rintro rfl
    exact (List.nodup_cons.1 h.nodup).1 hx
  nodup := (List.nodup_cons.1 h.nodup).2
  stdout := h.stdout
  stderr := h.stderr

/-- The handle of a slot from 3 on is closed and the slot freed. -/
theorem Owned.close (h : Owned [] live table) (h3 : 3 ≤ fd) (hfd : fd < kMaxFd) :
    Owned [] (live \ {table fd}) (Function.update table fd 0) := by
  -- No other slot holds the handle that is closed.
  have hother : ∀ k < kMaxFd, k ≠ fd → table k ≠ 0 → table k ≠ table fd := by
    intro k hk hne hkz heq
    have hlive := (h.entries k hk hkz).1
    obtain ⟨x, -, huniq⟩ := h.held _ hlive List.not_mem_nil
    have hk' := huniq k ⟨hk, Or.inr hkz, rfl⟩
    have hfd' := huniq fd ⟨hfd, Or.inr (heq ▸ hkz), heq.symm⟩
    exact hne (hk'.trans hfd'.symm)
  refine ⟨?_, ?_, fun x hx => absurd hx List.not_mem_nil, List.nodup_nil, ?_, ?_⟩
  · rintro x ⟨hx, hxne⟩ -
    obtain ⟨k, ⟨hk, hcase, hkx⟩, huniq⟩ := h.held x hx List.not_mem_nil
    have hne : k ≠ fd := by
      rintro rfl
      exact hxne hkx.symm
    refine ⟨k, ⟨hk, ?_, ?_⟩, ?_⟩
    · rwa [Function.update_of_ne hne]
    · rwa [Function.update_of_ne hne]
    · rintro k' ⟨hk', hcase', hkx'⟩
      have hne' : k' ≠ fd := by
        rintro rfl
        rw [Function.update_self] at hcase'
        rcases hcase' with hlt | hz
        · omega
        · exact hz rfl
      rw [Function.update_of_ne hne'] at hcase' hkx'
      exact huniq k' ⟨hk', hcase', hkx'⟩
  · intro k hk hne
    by_cases hkfd : k = fd
    · subst hkfd
      rw [Function.update_self] at hne
      exact absurd rfl hne
    · rw [Function.update_of_ne hkfd] at hne ⊢
      exact ⟨⟨(h.entries k hk hne).1, hother k hk hkfd hne⟩, List.not_mem_nil⟩
  · rw [Function.update_of_ne (by omega)]
    exact h.stdout
  · rw [Function.update_of_ne (by omega)]
    exact h.stderr

/-- Handle 0, when it is open again, is stdin's. -/
theorem Owned.reopen (h : Owned [] live table) (hz : table 0 = 0) :
    Owned [] (live ∪ {0}) table where
  held := by
    rintro x (hx | rfl) hnot
    · exact h.held x hx hnot
    · refine ⟨0, ⟨by decide, Or.inl (by decide), hz⟩, ?_⟩
      rintro k ⟨-, hcase, hkx⟩
      rcases hcase with hlt | hne
      · exact (h.slot_of_zero hkx).resolve_right (Nat.not_le.2 hlt)
      · exact absurd hkx hne
  entries := fun k hk hne => ⟨Or.inl (h.entries k hk hne).1, List.not_mem_nil⟩
  pending_live := fun x hx => absurd hx List.not_mem_nil
  nodup := List.nodup_nil
  stdout := h.stdout
  stderr := h.stderr

end

/-! ## Calls -/

/-- A close grants nothing. -/
@[simp] theorem granted_close (handle : ℤ) (a : Answer) :
    granted (kcall .close [handle] []) a = [] := by
  unfold granted
  exact ite_self _

/-- Two slots are free from 3 on. -/
def TwoFree (table : FdTable) : Prop :=
  ∃ fd fd', 3 ≤ fd ∧ fd < fd' ∧ fd' < kMaxFd ∧ table fd = 0 ∧ table fd' = 0

/-- A slot is found, and another one when the first is taken. -/
theorem TwoFree.found {table : FdTable} (h : TwoFree table) :
    freeFd table 3 ≠ none ∧
      ∀ fd handle, freeFd table 3 = some fd → freeFd (Function.update table fd handle) 3 ≠ none := by
  obtain ⟨k, k', h3, hlt, hk', hz, hz'⟩ := h
  constructor
  · intro hnone
    exact freeFd_eq_none.1 hnone k (by omega) (by omega) hz
  · intro fd handle hfree hnone
    rw [freeFd_eq_none] at hnone
    obtain ⟨hle, hfd, -, hfirst⟩ := freeFd_eq_some.1 hfree
    have hfdk : fd ≤ k := by
      by_contra hgt
      exact hfirst k (by omega) (by omega) hz
    have hne := hnone k' (by omega) hk'
    rw [Function.update_of_ne (by omega)] at hne
    exact hne hz'

section
variable {i : Invocation} {table table' : FdTable} {trace : List (KCall × Answer)} {live : Live}

/-- The kernel grants a handle in a trace. -/
def Grants (trace : List (KCall × Answer)) : Prop := ∃ step ∈ trace, granted step.1 step.2 ≠ []

/-- In a trace that cleans up, the kernel closes what it is asked to close. -/
def Closes (trace : List (KCall × Answer)) : Prop :=
  ∀ step ∈ trace, step.1.number = .close → step.2.ok = true

/-- What a call needs so that it loses no handle: two free slots for a pipe; a minimum above 0 for
a dup, while slot 0 holds the open handle 0; and that the kernel closes the handles that find no
slot. -/
structure Provided (i : Invocation) (table : FdTable) (live : Live)
    (trace : List (KCall × Answer)) : Prop where
  pipe : i = .pipe → Grants trace → TwoFree table
  dup : ∀ fd request arg, i = .fcntl fd request arg → Grants trace →
    0 < int32 arg ∨ table 0 ≠ 0 ∨ 0 ∉ live
  cleanup : (∀ fd, i ≠ .close fd) → Closes trace

/-- A call that fails with `EMFILE` leaves the table and has closed what it was granted. -/
def CleansUp (table table' : FdTable) (live' : Live) (trace : List (KCall × Answer))
    (r : Except Errno (List ℕ)) : Prop :=
  r = .error EMFILE →
    table' = table ∧ ∀ step ∈ trace, ∀ handle ∈ granted step.1 step.2, handle ∉ live'

/-- A quiet call cleans up. -/
theorem cleansUp_of_quiet {live' : Live} {r : Except Errno (List ℕ)} (h : QuietTrace trace) :
    CleansUp table table live' trace r := by
  intro _
  refine ⟨rfl, fun step hstep handle hmem => ?_⟩
  rw [(h step hstep).1] at hmem
  exact absurd hmem List.not_mem_nil

/-- A call that is granted handles once and closes them all cleans up. -/
theorem cleansUp_of_gone {live' : Live} {r : Except Errno (List ℕ)}
    {pre closes : List (KCall × Answer)} {c : KCall} {a : Answer} (hpre : QuietTrace pre)
    (hcloses : ∀ step ∈ closes, granted step.1 step.2 = [])
    (hgone : ∀ handle ∈ granted c a, handle ∉ live') :
    CleansUp table table live' (pre ++ (c, a) :: closes) r := by
  intro _
  refine ⟨rfl, fun step hstep handle hmem => ?_⟩
  rcases List.mem_append.1 hstep with hbefore | hafter
  · rw [(hpre step hbefore).1] at hmem
    exact absurd hmem List.not_mem_nil
  · rcases List.mem_cons.1 hafter with rfl | hclose
    · exact hgone handle hmem
    · rw [hcloses step hclose] at hmem
      exact absurd hmem List.not_mem_nil

/-- The handles that are registered from a message are owned afterwards, and the others closed. -/
theorem Owned.registered {handles : List ℤ} {fds : List ℕ}
    (hr : Registered table handles trace fds table') (h : Owned handles live table)
    (hclose : Closes trace) : Owned [] (live.run trace) table' := by
  induction hr generalizing live with
  | nil table => exact h
  | kept hfree _ ih =>
    obtain ⟨h3, hlt, hz, -⟩ := freeFd_eq_some.1 hfree
    exact ih (h.register hlt hz (Or.inl (by omega))) hclose
  | closed a _ _ ih =>
    have ha : a.ok = true := hclose _ List.mem_cons_self rfl
    rw [run_cons, after_close _ ha]
    exact ih h.drop fun step hstep => hclose step (List.mem_cons_of_mem _ hstep)

/-- Granted handles join the open ones and are pending. -/
theorem Owned.grant_after (h : Owned [] live table) {c : KCall} {a : Answer} {handles : List ℤ}
    (hg : granted c a = handles) (hc : c.number ≠ .close ∧ c.number ≠ .dup2)
    (hl : Allowed live c a) :
    live.after c a = live ∪ {x | x ∈ handles} ∧
      Owned handles (live ∪ {x | x ∈ handles}) table := by
  rw [after_of_not_close live fun _ => hc, hg]
  refine ⟨rfl, h.grant (fun x hx => ?_) ?_⟩
  · exact hl.1 x (by rwa [hg])
  · have hnodup := hl.2.1
    rwa [hg] at hnodup

/-- The same after calls that change no handle. -/
theorem Owned.grant_call (h : Owned [] live table) {pre : List (KCall × Answer)} {c : KCall}
    {a : Answer} {handles : List ℤ} (hpre : QuietTrace pre) (hg : granted c a = handles)
    (hc : c.number ≠ .close ∧ c.number ≠ .dup2) (hl : Allowed (live.run pre) c a) :
    (live.run pre).after c a = live ∪ {x | x ∈ handles} ∧
      Owned handles (live ∪ {x | x ∈ handles}) table := by
  rw [run_of_quiet hpre] at hl ⊢
  exact h.grant_after hg hc hl

/-- The slot found for a granted handle is from 3 on, or handle 0 is not open. -/
theorem Provided.slot (hp : Provided i table live trace) (h : Owned [] live table) {fd : ℕ}
    (hi : i.Opens) (hgrants : Grants trace) (hfree : freeFd table i.minFd = some fd) :
    3 ≤ fd ∨ 0 ∉ live := by
  obtain ⟨hle, -, hz, -⟩ := freeFd_eq_some.1 hfree
  cases i with
  | fcntl fd' request arg =>
    have hle' : int32 arg ≤ fd := hle
    rcases hp.dup fd' request arg rfl hgrants with hpos | hne | h0
    · exact Or.inl ((h.slot_of_zero hz).resolve_left (by omega))
    · refine Or.inl ((h.slot_of_zero hz).resolve_left ?_)
      rintro rfl
      exact hne hz
    · exact Or.inr h0
  | _ =>
    left
    have h3 : (3 : ℤ) ≤ fd := hle
    omega

/-- A `Dup2` onto the handle of an fd leaves the open handles owned. -/
theorem Owned.replace (h : Owned [] live table) {newfd : ℕ} (hlt : newfd < kMaxFd)
    (hcase : table newfd ≠ 0 ∨ newfd < 3) {handle : ℤ} {a : Answer} (ha : a.ok = true)
    (hl : Allowed live
      (kcall .dup2 [handle, if table newfd ≠ 0 then table newfd else newfd] []) a) :
    Owned [] (live ∪ {a.ret}) (Function.update table newfd a.ret) := by
  by_cases hz : table newfd = 0
  · -- The slot is stdin's.
    have hstdin : newfd = 0 := by
      have hstd : newfd < 3 := hcase.resolve_left (not_not.2 hz)
      exact (h.slot_of_zero hz).resolve_right (Nat.not_le.2 hstd)
    subst hstdin
    have hsame : a.ret = 0 → Owned [] (live ∪ {a.ret}) (Function.update table 0 a.ret) := by
      intro hret
      rw [hret, ← hz, Function.update_eq_self, hz]
      exact h.reopen hz
    rw [if_neg (not_not.2 hz)] at hl
    have hshape : ((0 : ℤ) ∈ live → a.ret = 0) ∧
        ((0 : ℤ) ∉ live → a.ret = 0 ∨ Fresh live a.ret) := hl.2.2 ha
    -- Where handle 0 is open the kernel returns it; else it returns 0 or a new one.
    by_cases h0 : (0 : ℤ) ∈ live
    · exact hsame (hshape.1 h0)
    · rcases hshape.2 h0 with hret | hfresh
      · exact hsame hret
      · have howned : Owned [a.ret] (live ∪ {x | x ∈ [a.ret]}) table :=
          h.grant (by simpa using hfresh) (List.nodup_cons.2 ⟨List.not_mem_nil, List.nodup_nil⟩)
        have hset : live ∪ {x | x ∈ [a.ret]} = live ∪ {a.ret} := by
          ext x
          simp
        rw [hset] at howned
        refine howned.register hlt hz (Or.inr ?_)
        rintro (hmem | hmem)
        · exact h0 hmem
        · have hret : (0 : ℤ) = a.ret := hmem
          have hlt2 := hfresh.2
          omega
  · -- The slot keeps its handle.
    rw [if_pos hz] at hl
    have hmem := (h.entries newfd hlt hz).1
    have hshape : (table newfd ∈ live → a.ret = table newfd) ∧ _ := hl.2.2 ha
    have hset : live ∪ {a.ret} = live := by
      ext x
      refine or_iff_left_of_imp fun hx => ?_
      obtain rfl : x = a.ret := hx
      rwa [hshape.1 hmem]
    rw [hset, hshape.1 hmem, Function.update_eq_self]
    exact h

/-- What a successful dup2 leaves open. -/
theorem after_dup2 {handle target : ℤ} {a : Answer} (ha : a.ok = true) :
    live.after (kcall .dup2 [handle, target] []) a = live ∪ {a.ret} := by
  unfold Live.after granted
  rw [if_pos ha]
  simp only [kcall, ha, if_true]
  ext x
  simp

/-- A handle that is granted and stored in a free slot is owned. -/
theorem Owned.opened (h : Owned [] live table) {pre : List (KCall × Answer)} {c : KCall}
    {a : Answer} {handle : ℤ} {fd : ℕ} (hpre : QuietTrace pre) (hg : granted c a = [handle])
    (hc : c.number ≠ .close ∧ c.number ≠ .dup2) (hl : Allowed (live.run pre) c a)
    (hlt : fd < kMaxFd) (hz : table fd = 0) (hslot : 3 ≤ fd ∨ 0 ∉ live) :
    Owned [] (live.run (pre ++ [(c, a)])) (Function.update table fd handle) := by
  obtain ⟨hlive, howned⟩ := h.grant_call hpre hg hc hl
  have hslot' : 3 ≤ fd ∨ 0 ∉ live ∪ {x | x ∈ [handle]} := by
    refine hslot.imp_right fun h0 => ?_
    rintro (hmem | hmem)
    · exact h0 hmem
    · have hlt2 := (howned.pending_live handle List.mem_cons_self).2
      have hzero : (0 : ℤ) = handle := List.mem_singleton.1 hmem
      omega
  rw [run_append, run_cons, run_nil, hlive]
  exact howned.register hlt hz hslot'

/-- A handle that is granted and finds no slot is closed again. -/
theorem Owned.returned {r : Except Errno (List ℕ)} (h : Owned [] live table)
    {pre : List (KCall × Answer)} {c : KCall} {a a' : Answer} {handle : ℤ} (hpre : QuietTrace pre)
    (hg : granted c a = [handle]) (hc : c.number ≠ .close ∧ c.number ≠ .dup2)
    (hl : Allowed (live.run pre) c a) (ha' : a'.ok = true)
    (htrace : trace = pre ++ [(c, a), (kcall .close [handle] [], a')]) :
    Owned [] (live.run trace) table ∧ CleansUp table table (live.run trace) trace r := by
  obtain ⟨hlive, howned⟩ := h.grant_call hpre hg hc hl
  rw [htrace, run_append, run_cons, run_cons, run_nil, hlive, after_close _ ha']
  refine ⟨howned.drop, cleansUp_of_gone hpre ?_ ?_⟩
  · intro step hstep
    rw [List.mem_singleton.1 hstep]
    exact granted_close handle a'
  · intro x hx hmem
    rw [hg] at hx
    exact hmem.2 (List.mem_singleton.1 hx)

/-- Both halves of a pair are stored, in two slots that are free one after the other. -/
theorem Owned.storedPair (h : Owned [] live table) {c : KCall} {a : Answer} {fd fd' : ℕ}
    (hc : c.number = .pipe ∨ c.number = .socketpair) (hl : Allowed live c a) (ha : a.ok = true)
    (hfree : freeFd table 3 = some fd)
    (hfree' : freeFd (Function.update table fd (a.handles.getD 0 0)) 3 = some fd') :
    Owned [] (live.run [(c, a)])
      (Function.update (Function.update table fd (a.handles.getD 0 0)) fd'
        (a.handles.getD 1 0)) := by
  have hne : c.number ≠ .close ∧ c.number ≠ .dup2 := by
    rcases hc with hc | hc <;> rw [hc] <;> decide
  obtain ⟨hlive, howned⟩ := h.grant_after (handles_pair hc hl ha) hne hl
  obtain ⟨hle, hlt, hz, -⟩ := freeFd_eq_some.1 hfree
  obtain ⟨hle', hlt', hz', -⟩ := freeFd_eq_some.1 hfree'
  rw [run_cons, run_nil, hlive]
  exact (howned.register hlt hz (Or.inl (by omega))).register hlt' hz' (Or.inl (by omega))

/-- Both halves of a socket pair are closed again. -/
theorem Owned.returnedPair {r : Except Errno (List ℕ)} (h : Owned [] live table) {args : List ℤ}
    {a a' a'' : Answer} (hl : Allowed live (kcall .socketpair [] args) a) (ha : a.ok = true)
    (ha' : a'.ok = true) (ha'' : a''.ok = true)
    (htrace : trace = [(kcall .socketpair [] args, a),
      (kcall .close [a.handles.getD 0 0] [], a'), (kcall .close [a.handles.getD 1 0] [], a'')]) :
    Owned [] (live.run trace) table ∧ CleansUp table table (live.run trace) trace r := by
  have hg := handles_pair (Or.inr rfl) hl ha
  obtain ⟨hlive, howned⟩ := h.grant_after hg ⟨by simp [kcall], by simp [kcall]⟩ hl
  rw [htrace, run_cons, run_cons, run_cons, run_nil, hlive, after_close _ ha', after_close _ ha'']
  refine ⟨howned.drop.drop, cleansUp_of_gone quietTrace_nil ?_ ?_⟩
  · intro step hstep
    rcases List.mem_cons.1 hstep with rfl | hstep
    · exact granted_close _ a'
    · rw [List.mem_singleton.1 hstep]
      exact granted_close _ a''
  · rintro x hx ⟨⟨-, h0⟩, h1⟩
    rw [hg] at hx
    rcases List.mem_cons.1 hx with hx | hx
    · exact h0 hx
    · exact h1 (List.mem_singleton.1 hx)

/-- The handles of a message are registered, or closed where no slot is left. -/
theorem Owned.received (h : Owned [] live table) {handle : ℤ} {args : List ℤ} {a : Answer}
    {rest : List (KCall × Answer)} {fds : List ℕ}
    (hl : Allowed live (kcall .socketRecvmsg [handle] args) a) (ha : a.ok = true)
    (hreg : Registered table a.handles rest fds table') (hclean : Closes rest) :
    Owned [] (live.run ((kcall .socketRecvmsg [handle] args, a) :: rest)) table' := by
  have hg : granted (kcall .socketRecvmsg [handle] args) a = a.handles := by
    unfold granted
    rw [if_pos ha]
    rfl
  obtain ⟨hlive, howned⟩ := h.grant_after hg ⟨by simp [kcall], by simp [kcall]⟩ hl
  rw [run_cons, hlive]
  exact howned.registered hreg hclean

/-- A pipe that is granted has two free slots. -/
theorem Provided.pipeSlots {rest : List (KCall × Answer)} {a : Answer}
    (hp : Provided i table live ((kcall .pipe [] [], a) :: rest)) (hi : i = .pipe)
    (hl : Allowed live (kcall .pipe [] []) a) (ha : a.ok = true) : TwoFree table := by
  refine hp.pipe hi ⟨_, List.mem_cons_self, ?_⟩
  rw [handles_pair (Or.inl rfl) hl ha]
  exact List.cons_ne_nil _ _

/-- Every outcome of a call that is provided for keeps the open handles owned and cleans up. -/
theorem Owned.outcome {r : Except Errno (List ℕ)} (h : Owned [] live table)
    (ho : Outcome i table trace r table') (hl : Legal live trace)
    (hp : Provided i table live trace) :
    Owned [] (live.run trace) table' ∧ CleansUp table table' (live.run trace) trace r := by
  cases ho with
  | failed e hq =>
    rw [run_of_quiet hq]
    exact ⟨h, cleansUp_of_quiet hq⟩
  | idle _ hq =>
    rw [run_of_quiet hq]
    exact ⟨h, cleansUp_of_quiet hq⟩
  | opened hi hpre ha hg hc hfree =>
    -- The handle that was granted goes into the slot that was found free.
    rename_i pre c a handle fd
    obtain ⟨hle, hlt, hz, -⟩ := freeFd_eq_some.1 hfree
    have hgrants : Grants (pre ++ [(c, a)]) :=
      ⟨(c, a), List.mem_append_right _ List.mem_cons_self, by rw [hg]; exact List.cons_ne_nil _ _⟩
    exact ⟨h.opened hpre hg hc (legal_mid hl) hlt hz (hp.slot h hi hgrants hfree),
      fun hr => absurd hr (by simp)⟩
  | full a' hi hpre ha hg hc hfree =>
    -- Without a slot the handle is closed again.
    rename_i pre c a handle
    have ha' : a'.ok = true := by
      refine hp.cleanup (by rintro fd rfl; exact hi) (kcall .close [handle] [], a') ?_ rfl
      simp
    exact h.returned hpre hg hc (legal_mid hl) ha' rfl
  | replaced hi hlt hcase ha =>
    rename_i fd newfd handle a
    rw [run_cons, run_nil, after_dup2 ha]
    exact ⟨h.replace hlt hcase ha (legal_cons.1 hl).1, fun hr => absurd hr (by simp)⟩
  | placed hi hlt hz h3 ha =>
    rename_i fd newfd handle a
    have hg : granted (kcall .dup [handle] []) a = [a.ret] := granted_of_opener rfl ha
    exact ⟨h.opened (quietTrace_nil) hg (ne_of_opener rfl) (legal_cons.1 hl).1 hlt hz (Or.inl h3),
      fun hr => absurd hr (by simp)⟩
  | pair hi hc ha hfree hfree' =>
    exact ⟨h.storedPair hc (legal_cons.1 hl).1 ha hfree hfree', fun hr => absurd hr (by simp)⟩
  | pipeHalf hi ha hfree hfree' =>
    -- The kernel grants a pipe only where both halves have a slot.
    exact absurd hfree' ((hp.pipeSlots hi (legal_cons.1 hl).1 ha).found.2 _ _ hfree)
  | pipeFull hi ha hfree =>
    exact absurd hfree (hp.pipeSlots hi (legal_cons.1 hl).1 ha).found.1
  | pairFull hi ha =>
    -- Both halves are closed again.
    rename_i args a a' a''
    have hclean := hp.cleanup (by rintro fd rfl; exact hi)
    exact h.returnedPair (legal_cons.1 hl).1 ha
      (hclean (kcall .close [a.handles.getD 0 0] [], a') (by simp) rfl)
      (hclean (kcall .close [a.handles.getD 1 0] [], a'') (by simp) rfl) rfl
  | received hi ha hreg =>
    rename_i handle args a rest fds
    have hclean : Closes rest := by
      intro step hstep
      refine hp.cleanup ?_ step (List.mem_cons_of_mem _ hstep)
      obtain ⟨fd, room, flags, alloc, rfl⟩ := hi
      intro fd' h'
      cases h'
    exact ⟨h.received (legal_cons.1 hl).1 ha hreg hclean, fun hr => absurd hr (by simp)⟩
  | closed hi h3 hlt ha =>
    rw [run_cons, run_nil, after_close _ ha]
    exact ⟨h.close h3 hlt, fun hr => absurd hr (by simp)⟩

end

/-! ## Runs -/

/-- After an event every open handle is held by exactly one slot, and a call that has failed with
`EMFILE` has cleaned up. -/
def Accounted (p : Process) (e : Event) : Prop :=
  (∀ handle ∈ (p.step e).live, ∃! fd, Holds (p.step e).libc.fdTable fd handle) ∧
    CleansUp p.libc.fdTable (p.step e).libc.fdTable (p.step e).live (p.trace e) (p.result e)

/-- The call of an event has what it needs. -/
def EventProvided (p : Process) (e : Event) : Prop :=
  Provided e.call p.libc.fdTable p.live (p.trace e)

/-- In every run whose calls have what they need, every event accounts for the handles. -/
theorem accounted_of_provided {es : List Event} (hl : LegalRun es)
    (hp : Along Process.step EventProvided initialProcess es) :
    Along Process.step Accounted initialProcess es := by
  have hstep : ∀ (p : Process) (e : Event), Owned [] p.live p.libc.fdTable →
      LegalEvent p e ∧ EventProvided p e →
      Owned [] (p.step e).live (p.step e).libc.fdTable ∧
        CleansUp p.libc.fdTable (p.step e).libc.fdTable (p.step e).live (p.trace e)
          (p.result e) :=
    fun p e h he => h.outcome (event_outcome p e) he.1 he.2
  refine Along.of_invariant (fun p : Process => Owned [] p.live p.libc.fdTable)
    (fun p e h he => (hstep p e h he).1) (fun p e h he => ?_) owned_initial (along_and.2 ⟨hl, hp⟩)
  obtain ⟨howned, hclean⟩ := hstep p e h he
  exact ⟨fun handle hmem => howned.held handle hmem List.not_mem_nil, hclean⟩

/-- A pipe at the start of a process. -/
theorem accounted_pipe :
    Along Process.step Accounted initialProcess
      [⟨.pipe, fun _ => ⟨0, [3, 4], fun _ => 0, 0, []⟩⟩] := by
  refine accounted_of_provided ⟨⟨⟨?_, by decide, fun _ => rfl⟩, trivial⟩, trivial⟩
    ⟨⟨fun _ _ => ?_, fun _ _ _ h => absurd h (by simp), fun _ step hstep hnum => ?_⟩, trivial⟩
  · intro handle hmem
    have hmem' : handle ∈ [(3 : ℤ), 4] := hmem
    have hcase : handle = 3 ∨ handle = 4 := by simpa using hmem'
    refine ⟨?_, by omega⟩
    rcases hcase with rfl | rfl <;> rintro (h | h | h) <;> exact absurd h (by decide)
  · exact ⟨3, 4, by decide, by decide, by decide, rfl, rfl⟩
  · obtain rfl := List.mem_singleton.1 hstep
    exact absurd hnum (by decide)

/-! ### A full table -/

/-- An answer that is no error number succeeds. -/
theorem returns_ok {ret : ℤ} (h : 0 ≤ ret) : (returns ret).ok = true := by
  rw [Answer.ok_iff]
  unfold scError
  rw [if_neg]
  show ¬ (-4095 ≤ ret ∧ ret ≤ -1)
  omega

/-- An open that is granted a handle stores it in the first free slot. -/
theorem exec_open {s : Libc} {fd : ℕ} {ret : ℤ} (h : 0 ≤ ret)
    (hfree : freeFd s.fdTable 3 = some fd) :
    (Invocation.open [] 0 0).run.exec s (fun _ => returns ret) =
      ((.ok [fd], s.setFd fd ret), [(kcallWith .open [] [0, 0] [[]], returns ret)]) := by
  have hok : scError (returns ret).ret = 0 := Answer.ok_iff.1 (returns_ok h)
  rw [Invocation.run, sysOpen]
  simp only [syscall, newFd, registerFdMin, bind_assoc, Act.exec_ask_bind, hok, ne_eq,
    not_true_eq_false, if_false, pure_bind, Act.exec_get_bind, hfree, Act.exec_modify_bind,
    Act.exec_pure]
  rfl

/-- Opens files, each with the next handle. -/
def opens (n : ℕ) : List Event :=
  (List.range n).map fun k : ℕ => ⟨.open [] 0 0, fun _ => returns (k + 3 : ℕ)⟩

/-- One more file is opened. -/
theorem opens_succ (n : ℕ) :
    opens (n + 1) = opens n ++ [⟨.open [] 0 0, fun _ => returns (n + 3 : ℕ)⟩] := by
  unfold opens
  rw [List.range_succ, List.map_append]
  rfl

/-- The process after one more file. -/
theorem after_opens_succ (n : ℕ) : after (opens (n + 1)) =
    (after (opens n)).step ⟨.open [] 0 0, fun _ => returns (n + 3 : ℕ)⟩ := by
  unfold after
  rw [opens_succ, List.foldl_append]
  rfl

/-- After up to 253 of them the fds are open in order. -/
theorem after_opens {n : ℕ} (hn : n ≤ 253) :
    LegalRun (opens n) ∧
      (after (opens n)).libc.fdTable = (fun fd => if fd < n + 3 then (fd : ℤ) else 0) ∧
      ∀ h : ℤ, h ∈ (after (opens n)).live ↔ 0 ≤ h ∧ h < n + 3 := by
  induction n with
  | zero =>
    refine ⟨trivial, ?_, fun h => ?_⟩
    · funext fd
      show initialTable fd = _
      unfold initialTable
      split_ifs <;> omega
    · show h ∈ initialLive ↔ _
      unfold initialLive
      simp only [Set.mem_insert_iff, Set.mem_singleton_iff]
      omega
  | succ n ih =>
    obtain ⟨hlegal, htable, hlive⟩ := ih (by omega)
    -- The first slot that is free is the one behind those taken so far.
    have hfree : freeFd (after (opens n)).libc.fdTable 3 = some (n + 3) := by
      rw [freeFd_eq_some, htable]
      refine ⟨by omega, by unfold kMaxFd; omega, if_neg (by omega), fun k h3 hk => ?_⟩
      dsimp only
      rw [if_pos hk]
      omega
    have hexec := exec_open (show (0 : ℤ) ≤ (n + 3 : ℕ) by omega) hfree
    have htrace : (after (opens n)).trace ⟨.open [] 0 0, fun _ => returns (n + 3 : ℕ)⟩ =
        [(kcallWith .open [] [0, 0] [[]], returns (n + 3 : ℕ))] := congrArg Prod.snd hexec
    have hgranted : granted (kcallWith .open [] [0, 0] [[]]) (returns (n + 3 : ℕ)) =
        [((n + 3 : ℕ) : ℤ)] := granted_of_opener rfl (returns_ok (by omega))
    refine ⟨?_, ?_, fun h => ?_⟩
    · unfold LegalRun at hlegal ⊢
      rw [opens_succ, along_append]
      refine ⟨hlegal, ?_, trivial⟩
      show Legal (after (opens n)).live ((after (opens n)).trace _)
      rw [htrace]
      refine ⟨⟨?_, ?_, fun _ => trivial⟩, trivial⟩
      · intro x hx
        rw [hgranted, List.mem_singleton] at hx
        subst hx
        refine ⟨?_, by omega⟩
        rw [hlive]
        omega
      · rw [hgranted]
        exact List.nodup_cons.2 ⟨List.not_mem_nil, List.nodup_nil⟩
    · have hlibc : (after (opens (n + 1))).libc =
          (after (opens n)).libc.setFd (n + 3) (n + 3 : ℕ) := by
        rw [after_opens_succ]
        exact congrArg (fun x => x.1.2) hexec
      rw [hlibc, fdTable_setFd, htable]
      funext fd
      rcases eq_or_ne fd (n + 3) with rfl | hne
      · rw [Function.update_self, if_pos (by omega)]
      · rw [Function.update_of_ne hne]
        split_ifs <;> omega
    · have hlive' : (after (opens (n + 1))).live =
          (after (opens n)).live ∪ {x | x ∈ [((n + 3 : ℕ) : ℤ)]} := by
        rw [after_opens_succ]
        show (after (opens n)).live.run ((after (opens n)).trace _) = _
        rw [htrace, run_cons, run_nil, after_of_not_close _ fun _ => ne_of_opener rfl, hgranted]
      rw [hlive']
      show h ∈ (after (opens n)).live ∨ h ∈ [((n + 3 : ℕ) : ℤ)] ↔ _
      rw [hlive, List.mem_singleton]
      omega

/-- A pipe in a full table makes no other kernel call. -/
theorem exec_pipe_full {s : Libc} {a : Answer} (ha : a.ok = true)
    (hfree : freeFd s.fdTable 3 = none) :
    Invocation.pipe.run.exec s (fun _ => a) =
      ((.error EMFILE, s), [(kcall .pipe [] [], a)]) := by
  have hok : scError a.ret = 0 := Answer.ok_iff.1 ha
  rw [Invocation.run, sysPipe]
  simp only [syscall, registerFd, registerFdMin, closeRegistered, bind_assoc, Act.exec_ask_bind,
    hok, ne_eq, not_true_eq_false, if_false, Act.exec_get_bind, hfree, pure_bind,
    Act.exec_throw_bind]

/-- The answer of a pipe that is granted the handles 300 and 301. -/
def pipeAnswer : Answer := ⟨0, [300, 301], fun _ => 0, 0, []⟩

/-- A pipe in a full table is a legal step after which the two handles are open and unaccounted. -/
theorem pipe_full {p : Process} (hfree : freeFd p.libc.fdTable 3 = none)
    (hlive : ∀ h ∈ p.live, h < 300) :
    Legal p.live (p.trace ⟨.pipe, fun _ => pipeAnswer⟩) ∧
      ¬ Accounted p ⟨.pipe, fun _ => pipeAnswer⟩ := by
  set e : Event := ⟨.pipe, fun _ => pipeAnswer⟩
  have hexec : e.call.run.exec p.libc e.answers =
      ((.error EMFILE, p.libc), [(kcall .pipe [] [], pipeAnswer)]) := exec_pipe_full rfl hfree
  have htrace : p.trace e = [(kcall .pipe [] [], pipeAnswer)] := congrArg Prod.snd hexec
  have hresult : p.result e = .error EMFILE := congrArg (fun x => x.1.1) hexec
  have hgranted : granted (kcall .pipe [] []) pipeAnswer = [300, 301] := rfl
  constructor
  · rw [htrace]
    refine ⟨⟨fun x hx => ?_, by decide, fun _ => rfl⟩, trivial⟩
    rw [hgranted] at hx
    have hcase : x = 300 ∨ x = 301 := by simpa using hx
    refine ⟨fun hmem => ?_, by omega⟩
    have hlt := hlive x hmem
    omega
  · intro hacc
    -- The call has failed, so that both handles should be closed.
    have hclosed : 300 ∉ (p.step e).live := (hacc.2 hresult).2 (kcall .pipe [] [], pipeAnswer)
      (by rw [htrace]; exact List.mem_cons_self) 300 List.mem_cons_self
    apply hclosed
    rw [step_live, htrace, run_cons, run_nil,
      after_of_not_close _ fun _ => ⟨by decide, by decide⟩, hgranted]
    exact Or.inr List.mem_cons_self

/-- A pipe when every slot is taken: the kernel's two handles stay open and no slot holds them. -/
theorem pipe_losesHandles :
    ¬ ∀ es : List Event, LegalRun es → Along Process.step Accounted initialProcess es := by
  intro hclaim
  -- 253 is kept as a variable, so that no step of the proof runs the 253 calls.
  obtain ⟨n, hn⟩ : ∃ n : ℕ, n = 253 := ⟨253, rfl⟩
  obtain ⟨hlegal, htable, hlive⟩ := after_opens (n := n) (by omega)
  have hnone : freeFd (after (opens n)).libc.fdTable 3 = none := by
    rw [freeFd_eq_none, htable]
    intro k h3 hk
    unfold kMaxFd at hk
    dsimp only
    rw [if_pos (by omega)]
    omega
  have hbelow : ∀ h ∈ (after (opens n)).live, h < 300 := by
    intro h hmem
    have hlt := (hlive h).1 hmem
    omega
  obtain ⟨hpipe, hnot⟩ := pipe_full hnone hbelow
  have hrun : LegalRun (opens n ++ [⟨.pipe, fun _ => pipeAnswer⟩]) := by
    unfold LegalRun at hlegal ⊢
    rw [along_append]
    exact ⟨hlegal, hpipe, trivial⟩
  have hacc := hclaim _ hrun
  exact hnot hacc.at

end IUserApps.Sysdeps
