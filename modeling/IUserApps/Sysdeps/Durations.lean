import IUserApps.Sysdeps.Clock
import IUserApps.Sysdeps.Select

/-!
# Durations

`Sleep`, `Pselect` and `ClockSet` turn seconds and nanoseconds into one number for the kernel. The
first two divide the nanoseconds down to milliseconds, and all three multiply the seconds in 64 bits;
`Pselect` does not call the kernel when there is no fd to poll. `durations_iff` says for which
durations the kernel is given one that is not shorter, and for which times the time itself.
-/

namespace IUserApps.Sysdeps

open Interact

/-- `Sleep`: the seconds and nanoseconds that are left. -/
def sysSleep (secs nanos : ℤ) : Sys (ℤ × ℤ) := do
  let _ ← syscall (kcall .sleep [] [toMs secs nanos])
  pure (0, 0)

/-- `ClockSet`. -/
def sysClockSet (clock secs nanos : ℤ) : Sys Unit :=
  if clock ≠ CLOCK_REALTIME ∨ secs < 0 ∨ nanos < 0 ∨ 1000000000 ≤ nanos then Act.throw EINVAL
  else do
    let _ ← syscall (kcall .setunixtime [] [int64 (int64 (secs * 1000000000) + nanos)])
    pure ()

/-! ## What the kernel is given -/

/-- The milliseconds are not negative and not shorter than the duration. -/
def LongEnough (sec nsec ms : ℤ) : Prop := 0 ≤ ms ∧ sec * 1000000000 + nsec ≤ ms * 1000000

/-- A run that fails, gives the kernel a number of milliseconds that is long enough, or has no time
to wait. -/
def Waits (number : Syscall) (sec nsec : ℤ) {α : Type} (trace : List (KCall × Answer))
    (r : Except Errno α) : Prop :=
  (∃ e, r = .error e) ∨
    (∃ handles ms args a, trace = [(kcall number handles (ms :: args), a)] ∧
      LongEnough sec nsec ms) ∨
    trace = [] ∧ sec = 0 ∧ nsec = 0

/-- A duration of whole milliseconds, of which there are fewer than `2^63`. -/
def WholeMs (sec nsec : ℤ) : Prop := nsec % 1000000 = 0 ∧ sec * 1000 + nsec / 1000000 < 2^63

/-- The computed milliseconds are long enough exactly for whole milliseconds. -/
theorem longEnough_iff {sec nsec : ℤ} (hsec : 0 ≤ sec) (hsec' : sec < 2^63) (hnsec : 0 ≤ nsec)
    (hnsec' : nsec < 1000000000) : LongEnough sec nsec (toMs sec nsec) ↔ WholeMs sec nsec := by
  have htdiv : nsec.tdiv 1000000 = nsec / 1000000 := Int.tdiv_eq_ediv_of_nonneg hnsec
  unfold LongEnough WholeMs toMs int64
  rw [htdiv]
  omega

/-- The time in nanoseconds is handed over as it is, or does not fit. -/
theorem unixtime_iff {secs nanos : ℤ} (hsecs : 0 ≤ secs) (hnanos : 0 ≤ nanos)
    (hnanos' : nanos < 1000000000) :
    int64 (int64 (secs * 1000000000) + nanos) = secs * 1000000000 + nanos ↔
      secs * 1000000000 + nanos < 2^63 := by
  unfold int64
  omega

/-! ## The calls -/

/-- An answer without an error. -/
def success : Answer := ⟨0, [], fun _ => 0, 0, []⟩

section
variable {sec nsec : ℤ} {s : Libc}

/-- A call that succeeds waits as long as it was given. -/
theorem waits_call {α : Type} {number : Syscall} {handles args : List ℤ} {ms : ℤ} {a : Answer}
    {x : α} : Waits number sec nsec [(kcall number handles (ms :: args), a)] (.ok x : Except Errno α) ↔
      LongEnough sec nsec ms := by
  constructor
  · rintro (⟨e, he⟩ | ⟨handles', ms', args', a', htrace, hlong⟩ | ⟨hnil, -⟩)
    · cases he
    · have hcall := (Prod.mk.inj (List.cons.inj htrace).1).1
      have hargs : ms :: args = ms' :: args' := congrArg KCall.args hcall
      rw [(List.cons.inj hargs).1]
      exact hlong
    · cases hnil
  · exact fun hlong => Or.inr (Or.inl ⟨handles, ms, args, a, rfl, hlong⟩)

/-- `Sleep` waits long enough exactly when the milliseconds are. -/
theorem sysSleep_iff :
    (∀ trace r s', Act.Runs (sysSleep sec nsec) s trace r s' → Waits .sleep sec nsec trace r) ↔
      LongEnough sec nsec (toMs sec nsec) := by
  constructor
  · intro h
    have hrun : Act.Runs (sysSleep sec nsec) s [(kcall .sleep [] [toMs sec nsec], success)]
        (.ok (0, 0)) s :=
      runs_syscall_bind.2 ⟨_, [], rfl, Or.inr ⟨by decide, Act.runs_pure.2 ⟨rfl, rfl, rfl⟩⟩⟩
    exact waits_call.1 (h _ _ _ hrun)
  · intro hlong trace r s' hrun
    obtain ⟨a, rest, rfl, ⟨-, -, rfl, -⟩ | ⟨-, hdone⟩⟩ := runs_syscall_bind.1 hrun
    · exact Or.inl ⟨_, rfl⟩
    · obtain ⟨rfl, rfl, -⟩ := Act.runs_pure.1 hdone
      exact waits_call.2 hlong

/-- `ClockSet` sets the time it is given exactly when its nanoseconds fit. -/
theorem sysClockSet_iff {clock : ℤ} (hsec : 0 ≤ sec) (hnsec : 0 ≤ nsec)
    (hnsec' : nsec < 1000000000) :
    (∀ trace r s', Act.Runs (sysClockSet clock sec nsec) s trace r s' → (∃ e, r = .error e) ∨
        ∃ a, trace = [(kcall .setunixtime [] [sec * 1000000000 + nsec], a)]) ↔
      clock ≠ CLOCK_REALTIME ∨ sec * 1000000000 + nsec < 2^63 := by
  by_cases hclock : clock = CLOCK_REALTIME
  · have hchecks : ¬(clock ≠ CLOCK_REALTIME ∨ sec < 0 ∨ nsec < 0 ∨ 1000000000 ≤ nsec) := by
      rintro (h | h)
      · exact h hclock
      · omega
    rw [or_iff_right (not_not.2 hclock), ← unixtime_iff hsec hnsec hnsec']
    unfold sysClockSet
    rw [if_neg hchecks]
    constructor
    · intro h
      -- A run in which the kernel sets the clock.
      have hrun := h _ (.ok ()) s
        (runs_syscall_bind.2 ⟨success, [], rfl, Or.inr ⟨by decide, Act.runs_pure.2 ⟨rfl, rfl, rfl⟩⟩⟩)
      rcases hrun with ⟨e, he⟩ | ⟨a, htrace⟩
      · cases he
      · have hcall := (Prod.mk.inj (List.cons.inj htrace).1).1
        have hargs := congrArg KCall.args hcall
        exact (List.cons.inj hargs).1
    · intro hexact trace r s' hrun
      obtain ⟨a, rest, rfl, ⟨-, -, rfl, -⟩ | ⟨-, hdone⟩⟩ := runs_syscall_bind.1 hrun
      · exact Or.inl ⟨_, rfl⟩
      · obtain ⟨rfl, -, -⟩ := Act.runs_pure.1 hdone
        exact Or.inr ⟨a, by rw [hexact]⟩
  · refine iff_of_true (fun trace r s' hrun => ?_) (Or.inl hclock)
    unfold sysClockSet at hrun
    rw [if_pos (Or.inl hclock)] at hrun
    exact Or.inl ⟨_, (Act.runs_throw.1 hrun).2.1⟩

/-- The search succeeds when the first 64 fds with an event to poll have handles. -/
theorem selectFds_isOk {table : FdTable} {wanted : ℕ → ℕ} {n fd : ℕ} {found : List (ℕ × ℤ)}
    (hlen : found.length ≤ 64) :
    (∃ found', selectFds table wanted n fd found = .ok found') ↔
      ∀ k ∈ ((List.range' fd n).filter fun k => wanted k ≠ 0).take (64 - found.length),
        0 ≤ handleForFd table k := by
  induction n generalizing fd found with
  | zero => exact iff_of_true ⟨found, rfl⟩ (by simp)
  | succ n ih =>
    rw [selectFds, List.range'_succ]
    by_cases hfull : 64 ≤ found.length
    · rw [if_pos hfull, Nat.sub_eq_zero_of_le hfull]
      exact iff_of_true ⟨found, rfl⟩ (by simp)
    rw [if_neg hfull]
    by_cases hnone : wanted fd = 0
    · rw [if_pos hnone, List.filter_cons_of_neg (by simp [hnone])]
      exact ih hlen
    · have hroom : 64 - found.length = 64 - (found.length + 1) + 1 := by omega
      rw [if_neg hnone, List.filter_cons_of_pos (by simpa using hnone), hroom,
        List.take_succ_cons, List.forall_mem_cons]
      dsimp only
      by_cases hhandle : handleForFd table fd < 0
      · rw [if_pos hhandle]
        exact iff_of_false (fun h => by obtain ⟨_, h⟩ := h; cases h) fun h => absurd h.1 (by omega)
      · rw [if_neg hhandle, ih (by rw [List.length_append, List.length_singleton]; omega),
          List.length_append, List.length_singleton]
        exact (and_iff_right (by omega)).symm

/-- The fds to poll are found when each of them has a handle. -/
theorem polled_isOk (table : FdTable) (numFds : ℕ) (reads writes : Option FdSet) :
    (∃ found, selectFds table (polledEvents reads writes) numFds 0 [] = .ok found) ↔
      ∀ fd ∈ polled numFds reads writes, 0 ≤ handleForFd table fd := by
  rw [selectFds_isOk (show [].length ≤ 64 by decide), polled, List.range_eq_range']
  simp only [polledEvents_ne_zero]
  rfl

/-- A run that makes no call and does not fail. -/
theorem waits_nil {α : Type} {number : Syscall} {x : α} :
    Waits number sec nsec [] (.ok x : Except Errno α) ↔ sec = 0 ∧ nsec = 0 := by
  constructor
  · rintro (⟨e, he⟩ | ⟨_, _, _, _, htrace, -⟩ | ⟨-, hzero⟩)
    · cases he
    · cases htrace
    · exact hzero
  · exact fun hzero => Or.inr (Or.inr ⟨rfl, hzero⟩)

/-- `Pselect` waits long enough exactly when it fails on an fd, has neither an fd nor a time to wait
for, or the milliseconds are long enough. -/
theorem pselect_iff {numFds : ℕ} {reads writes excepts : Option FdSet} :
    (∀ trace r s',
        Act.Runs (pselect numFds reads writes excepts (some (sec, nsec))) s trace r s' →
          Waits .poll sec nsec trace r) ↔
      (∃ fd ∈ polled numFds reads writes, handleForFd s.fdTable fd < 0) ∨
        if polled numFds reads writes = [] then sec = 0 ∧ nsec = 0
        else LongEnough sec nsec (toMs sec nsec) := by
  have hisOk := polled_isOk s.fdTable numFds reads writes
  unfold pselect
  simp only [Act.runs_get_bind]
  cases hfound : selectFds s.fdTable (polledEvents reads writes) numFds 0 [] with
  | error e =>
    refine iff_of_true (fun trace r s' hrun => Or.inl ⟨e, (Act.runs_throw.1 hrun).2.1⟩) (Or.inl ?_)
    by_contra hnone
    push Not at hnone
    obtain ⟨found, hok⟩ := hisOk.2 hnone
    rw [hfound] at hok
    cases hok
  | ok found =>
    have hopen := hisOk.1 ⟨found, hfound⟩
    have hnone : ¬∃ fd ∈ polled numFds reads writes, handleForFd s.fdTable fd < 0 := by
      push Not
      exact hopen
    have hempty : polled numFds reads writes = [] ↔ found = [] := by
      rw [← map_found hfound, List.map_eq_nil_iff]
    rw [or_iff_right hnone]
    dsimp only
    by_cases hnil : found = []
    · -- Without an fd there is nothing to wait on, and the call returns at once.
      simp only [if_pos hnil, if_pos (hempty.2 hnil)]
      constructor
      · intro h
        exact waits_nil.1 (h _ _ s (Act.runs_pure.2 ⟨rfl, rfl, rfl⟩))
      · intro hzero trace r s' hrun
        obtain ⟨rfl, rfl, -⟩ := Act.runs_pure.1 hrun
        exact waits_nil.2 hzero
    · simp only [if_neg hnil, if_neg (mt hempty.1 hnil)]
      constructor
      · intro h
        exact waits_call.1 (h _ _ s (runs_syscall_bind.2
          ⟨success, [], rfl, Or.inr ⟨by decide, Act.runs_pure.2 ⟨rfl, rfl, rfl⟩⟩⟩))
      · intro hlong trace r s' hrun
        obtain ⟨a, rest, rfl, ⟨-, -, rfl, -⟩ | ⟨-, hdone⟩⟩ := runs_syscall_bind.1 hrun
        · exact Or.inl ⟨_, rfl⟩
        · obtain ⟨rfl, rfl, -⟩ := Act.runs_pure.1 hdone
          exact waits_call.2 hlong

end

/-- For every duration that a `timespec` holds, in any state: `Sleep` waits for it, `Pselect` waits for it
and `ClockSet` sets it, or they fail, exactly under these conditions. -/
theorem durations_iff {sec nsec : ℤ} (hsec : 0 ≤ sec) (hsec' : sec < 2^63) (hnsec : 0 ≤ nsec)
    (hnsec' : nsec < 1000000000) (s : Libc) :
    ((∀ trace r s', Act.Runs (sysSleep sec nsec) s trace r s' → Waits .sleep sec nsec trace r) ↔
        WholeMs sec nsec) ∧
      (∀ numFds reads writes excepts,
        (∀ trace r s',
            Act.Runs (pselect numFds reads writes excepts (some (sec, nsec))) s trace r s' →
              Waits .poll sec nsec trace r) ↔
          (∃ fd ∈ polled numFds reads writes, handleForFd s.fdTable fd < 0) ∨
            if polled numFds reads writes = [] then sec = 0 ∧ nsec = 0 else WholeMs sec nsec) ∧
      ∀ clock,
        (∀ trace r s', Act.Runs (sysClockSet clock sec nsec) s trace r s' → (∃ e, r = .error e) ∨
            ∃ a, trace = [(kcall .setunixtime [] [sec * 1000000000 + nsec], a)]) ↔
          clock ≠ CLOCK_REALTIME ∨ sec * 1000000000 + nsec < 2^63 := by
  rw [← longEnough_iff hsec hsec' hnsec hnsec']
  exact ⟨sysSleep_iff, fun _ _ _ _ => pselect_iff, fun _ => sysClockSet_iff hsec hnsec hnsec'⟩

/-- Sleeping for half a millisecond gives the kernel no time; a time of 2^64 - 1 milliseconds gives it
`kPollWaitForever`; a second is not waited for without an fd; and after the year 2262 the clock is
set to a time before 1970. -/
theorem durations_cut :
    (¬∀ trace r s', Act.Runs (sysSleep 0 500000) initialLibc trace r s' →
        Waits .sleep 0 500000 trace r) ∧
      toMs 0 500000 = 0 ∧ toMs 18446744073709551 615000000 = -1 ∧
      (¬∀ trace r s', Act.Runs (pselect 0 none none none (some (1, 0))) initialLibc trace r s' →
        Waits .poll 1 0 trace r) ∧
      int64 (int64 (9223372037 * 1000000000) + 0) = -9223372036709551616 := by
  refine ⟨?_, by decide, by decide, ?_, by decide⟩
  · rw [sysSleep_iff]
    rintro ⟨-, h⟩
    exact absurd h (by decide)
  · rw [pselect_iff]
    rintro (⟨fd, hfd, -⟩ | h)
    · exact absurd hfd (by simp [polled])
    · exact absurd h.1 (by decide)

/-- A second and a half is a duration of whole milliseconds. -/
theorem durations_iff_halfSecond :
    WholeMs 1 500000000 ∧ ∀ trace r s',
      Act.Runs (sysSleep 1 500000000) initialLibc trace r s' →
        Waits .sleep 1 500000000 trace r := by
  have hwhole : WholeMs 1 500000000 := ⟨by decide, by decide⟩
  have hiff := @durations_iff 1 500000000 (by decide) (by decide) (by decide) (by decide)
    initialLibc
  exact ⟨hwhole, hiff.1.2 hwhole⟩

end IUserApps.Sysdeps
