import Mathlib.Data.List.Pairwise
import IUserApps.Sysdeps.Kernel

/-!
# The wall clock

`ClockGet`, which asks the kernel for nanoseconds and falls back to milliseconds. On a kernel without
`GETUNIXTIME_NS` the wall clock is put together from two reads, the uptime and then the unix time, which
is the boot time and the whole seconds of the uptime. `neverDecreases_iff` says when the readings of a
run never decrease: the milliseconds are those of the first read, so that a call between whose reads a
second begins is ahead of the clock, and a later call in that second may overtake it backwards.
-/

namespace IUserApps.Sysdeps

open Interact

/-- The kernel calls that read a clock. -/
inductive ClockRead
  | gettimeNs | gettime | getunixtimeNs | getunixtime
deriving DecidableEq, Repr

/-- The wall clock. -/
def CLOCK_REALTIME : ℤ := 0

/-- The clock that runs from the boot on. -/
def kClockMonotonic : ℤ := 1
/-- The same, without corrections. -/
def kClockMonotonicRaw : ℤ := 4
/-- The same, through sleep. -/
def kClockBoottime : ℤ := 7

/-- `ClockGet`: the seconds and the nanoseconds. -/
def sysClockGet (clock : ℤ) : Act ClockRead ℤ Unit Errno (ℤ × ℤ) := do
  if clock = kClockMonotonic ∨ clock = kClockMonotonicRaw ∨ clock = kClockBoottime then
    let ns ← Act.ask .gettimeNs
    if scError ns = 0 then
      pure (ns.tdiv 1000000000, ns.tmod 1000000000)
    else
      let ms ← Act.ask .gettime
      if scError ms ≠ 0 then Act.throw (scError ms)
      else pure (ms.tdiv 1000, ms.tmod 1000 * 1000000)
  else
    let unixns ← Act.ask .getunixtimeNs
    if scError unixns = 0 then
      pure (unixns.tdiv 1000000000, unixns.tmod 1000000000)
    else
      let ms ← Act.ask .gettime
      let unixt ← Act.ask .getunixtime
      if scError unixt ≠ 0 then Act.throw (scError unixt)
      else pure (unixt, if scError ms = 0 then ms.tmod 1000 * 1000000 else 0)

/-! ## Runs -/

/-- A call for the wall clock, with the kernel's answers and the uptime in milliseconds at each of its
reads. -/
structure ClockCall where
  answers : ℕ → ℤ
  uptime : ℕ → ℕ

/-- What a kernel without `GETUNIXTIME_NS` answers. A read may fail. -/
def AnswersClock (boot uptime : ℕ) : ClockRead → ℤ → Prop
  | .gettimeNs, _ => True
  | .gettime, a => scError a ≠ 0 ∨ a = uptime
  | .getunixtimeNs, a => scError a ≠ 0
  | .getunixtime, a => scError a ≠ 0 ∨ a = (boot + uptime / 1000 : ℕ)

namespace ClockCall

variable (e : ClockCall)

/-- What the call returns. -/
def result : Except Errno (ℤ × ℤ) := ((sysClockGet CLOCK_REALTIME).exec () e.answers).1.1

/-- The reads that it makes, with their answers. -/
def trace : List (ClockRead × ℤ) := ((sysClockGet CLOCK_REALTIME).exec () e.answers).2

/-- The time that it returns, unless it fails. -/
def reading : Option (ℤ × ℤ) := e.result.toOption

/-- Every read is answered as the kernel answers at its uptime. -/
def Honest (boot : ℕ) : Prop :=
  ∀ i step, e.trace[i]? = some step → AnswersClock boot (e.uptime i) step.1 step.2

/-- The uptime does not decrease from one read to the next. -/
def Advances : Prop := ∀ i j, i ≤ j → j < e.trace.length → e.uptime i ≤ e.uptime j

/-- The reads of a call come before those of another. -/
def Before (e' : ClockCall) : Prop :=
  ∀ i j, i < e.trace.length → j < e'.trace.length → e.uptime i ≤ e'.uptime j

end ClockCall

/-- Calls for the wall clock one after another. -/
def ClockRun (boot : ℕ) (es : List ClockCall) : Prop :=
  (∀ e ∈ es, e.Honest boot ∧ e.Advances) ∧ es.Pairwise ClockCall.Before

/-- What the calls that succeed return. -/
def readings (es : List ClockCall) : List (ℤ × ℤ) := es.filterMap ClockCall.reading

/-- A time that is not after another. -/
def NotAfter (t t' : ℤ × ℤ) : Prop := t.1 < t'.1 ∨ t.1 = t'.1 ∧ t.2 ≤ t'.2

/-- The readings never decrease, and their nanoseconds are less than a second. -/
def NeverDecreases (es : List ClockCall) : Prop :=
  (readings es).Pairwise NotAfter ∧ ∀ t ∈ readings es, 0 ≤ t.2 ∧ t.2 < 1000000000

namespace ClockCall

variable (e : ClockCall)

/-- The second of the uptime in which the unix time is read. -/
def second : ℕ := e.uptime 2 / 1000

/-- A second begins between the two reads. -/
def Straddles : Prop := e.uptime 1 / 1000 < e.second

/-- The unix time is read. -/
def Succeeds : Prop := scError (e.answers 2) = 0

/-- The uptime is read. -/
def Timed : Prop := scError (e.answers 1) = 0

/-- The millisecond of its second in which the uptime is read. -/
def millisecond : ℕ := e.uptime 1 % 1000

/-- A later call in the same second is behind: at an earlier millisecond than a call between whose
reads the second began, or without a millisecond. -/
def Overtaken (e' : ClockCall) : Prop :=
  e.second = e'.second ∧ e.Timed ∧
    ((e'.Timed ∧ e.Straddles ∧ e'.millisecond < e.millisecond) ∨
      (¬e'.Timed ∧ 0 < e.millisecond))

/-- The nanoseconds that are returned. -/
def fraction : ℤ := if scError (e.answers 1) = 0 then e.millisecond * 1000000 else 0

end ClockCall

/-- No call that succeeds is overtaken by a later one that does. -/
def NeverOvertaken (es : List ClockCall) : Prop :=
  es.Pairwise fun e e' => e.Succeeds → e'.Succeeds → ¬e.Overtaken e'

/-! ## What a call returns -/

namespace ClockCall

variable {boot : ℕ} {e e' : ClockCall}

/-- The wall clock is none of the clocks that run from the boot on. -/
theorem realtime_not_monotonic : ¬(CLOCK_REALTIME = kClockMonotonic ∨
    CLOCK_REALTIME = kClockMonotonicRaw ∨ CLOCK_REALTIME = kClockBoottime) := by decide

/-- After a first read that fails, the others are made. -/
theorem trace_of_missing (h : scError (e.answers 0) ≠ 0) :
    e.trace = [(.getunixtimeNs, e.answers 0), (.gettime, e.answers 1),
      (.getunixtime, e.answers 2)] := by
  unfold trace sysClockGet
  rw [if_neg realtime_not_monotonic, Act.exec_ask_bind, if_neg h, Act.exec_ask_bind,
    Act.exec_ask_bind]
  dsimp only
  split <;> rfl

/-- The first read fails. -/
theorem Honest.missing (h : e.Honest boot) : scError (e.answers 0) ≠ 0 := by
  have hfirst : e.trace[0]? = some (.getunixtimeNs, e.answers 0) := by
    unfold trace sysClockGet
    rw [if_neg realtime_not_monotonic, Act.exec_ask_bind]
    rfl
  exact h 0 _ hfirst

/-- A call that succeeds returns the second of its last read and the millisecond of the one before. -/
theorem reading_eq (h : e.Honest boot) :
    e.reading = if scError (e.answers 2) = 0 then some (((boot + e.second : ℕ) : ℤ), e.fraction)
      else none := by
  have hmissing := h.missing
  have htrace := trace_of_missing hmissing
  have hms : scError (e.answers 1) ≠ 0 ∨ e.answers 1 = e.uptime 1 :=
    h 1 (.gettime, e.answers 1) (by rw [htrace]; rfl)
  have hunix : scError (e.answers 2) ≠ 0 ∨ e.answers 2 = (boot + e.uptime 2 / 1000 : ℕ) :=
    h 2 (.getunixtime, e.answers 2) (by rw [htrace]; rfl)
  have hfraction : (if scError (e.answers 1) = 0 then (e.answers 1).tmod 1000 * 1000000 else 0) =
      e.fraction := by
    unfold fraction
    split
    · next hok =>
      have hval := hms.resolve_left (not_not.2 hok)
      have hmod : ((e.uptime 1 : ℕ) : ℤ).tmod 1000 = (e.uptime 1 % 1000 : ℕ) :=
        Int.tmod_eq_emod_of_nonneg (Int.natCast_nonneg _)
      rw [hval, hmod]
      rfl
    · rfl
  unfold reading result sysClockGet
  rw [if_neg realtime_not_monotonic, Act.exec_ask_bind, if_neg hmissing, Act.exec_ask_bind,
    Act.exec_ask_bind]
  dsimp only
  by_cases hok : scError (e.answers 2) = 0
  · rw [if_pos hok, if_neg (not_not.2 hok), hfraction, hunix.resolve_left (not_not.2 hok)]
    rfl
  · rw [if_neg hok, if_pos hok]
    rfl

/-- Its nanoseconds are less than a second. -/
theorem fraction_bounds (e : ClockCall) : 0 ≤ e.fraction ∧ e.fraction < 1000000000 := by
  have hlt : e.millisecond < 1000 := Nat.mod_lt _ (by decide)
  unfold fraction
  split <;> omega

/-- In the second of the last reads, the milliseconds of a call that reads both in one second are not
after those of a later call. -/
theorem millisecond_le (h : e.uptime 1 ≤ e'.uptime 1) (hlast : e'.uptime 1 ≤ e'.uptime 2)
    (hsame : e.second = e'.second) (hwithin : ¬e.Straddles) : e.millisecond ≤ e'.millisecond := by
  unfold Straddles at hwithin
  unfold second at hsame hwithin
  unfold millisecond
  omega

/-- In one second, a later call has a smaller fraction if it is at an earlier millisecond or has
none. -/
theorem fraction_le_iff (hms : ¬e.Straddles → e.millisecond ≤ e'.millisecond) :
    e.fraction ≤ e'.fraction ↔
      ¬(e.Timed ∧ ((e'.Timed ∧ e.Straddles ∧ e'.millisecond < e.millisecond) ∨
        (¬e'.Timed ∧ 0 < e.millisecond))) := by
  have hpos := (fraction_bounds e').1
  by_cases htimed : e.Timed
  · have hfraction : e.fraction = e.millisecond * 1000000 := if_pos htimed
    by_cases htimed' : e'.Timed
    · have hfraction' : e'.fraction = e'.millisecond * 1000000 := if_pos htimed'
      by_cases hstraddles : e.Straddles
      · simp only [htimed, htimed', hstraddles, true_and, not_true_eq_false, false_and, or_false]
        omega
      · have hle := hms hstraddles
        simp only [htimed, htimed', hstraddles, not_true_eq_false, false_and, or_false, and_false,
          not_false_eq_true, iff_true]
        omega
    · have hfraction' : e'.fraction = 0 := if_neg htimed'
      simp only [htimed, htimed', true_and, not_false_eq_true, false_and, false_or]
      omega
  · have hfraction : e.fraction = 0 := if_neg htimed
    simp only [htimed, false_and, not_false_eq_true, iff_true]
    omega

/-- A reading is not after that of a later call, unless it is overtaken. -/
theorem notAfter_iff (hbefore : e.uptime 1 ≤ e'.uptime 1) (hsecond : e.uptime 2 ≤ e'.uptime 2)
    (hlast : e'.uptime 1 ≤ e'.uptime 2) :
    NotAfter (((boot + e.second : ℕ) : ℤ), e.fraction) (((boot + e'.second : ℕ) : ℤ), e'.fraction) ↔
      ¬e.Overtaken e' := by
  have hmono : e.second ≤ e'.second := Nat.div_le_div_right hsecond
  have hlater : NotAfter (((boot + e.second : ℕ) : ℤ), e.fraction)
      (((boot + e'.second : ℕ) : ℤ), e'.fraction) ↔
      (e.second = e'.second → e.fraction ≤ e'.fraction) := by
    unfold NotAfter
    dsimp only
    omega
  rw [hlater]
  unfold Overtaken
  rw [not_and]
  apply imp_congr_right
  intro hsame
  exact fraction_le_iff fun hwithin => millisecond_le hbefore hlast hsame hwithin

end ClockCall

/-- The readings of a run never decrease exactly when no call is overtaken. -/
theorem neverDecreases_iff {boot : ℕ} {es : List ClockCall} (h : ClockRun boot es) :
    NeverDecreases es ↔ NeverOvertaken es := by
  obtain ⟨hcalls, hbefore⟩ := h
  have hbounds : ∀ t ∈ readings es, 0 ≤ t.2 ∧ t.2 < 1000000000 := by
    intro t ht
    obtain ⟨e, he, hreading⟩ := List.mem_filterMap.1 ht
    rw [ClockCall.reading_eq (hcalls e he).1] at hreading
    split at hreading
    · cases hreading
      exact e.fraction_bounds
    · cases hreading
  -- Two calls that succeed, the reads of one before those of the other.
  have hpair : ∀ e ∈ es, ∀ e' ∈ es, e.Before e' →
      ((∀ t, e.reading = some t → ∀ t', e'.reading = some t' → NotAfter t t') ↔
        (e.Succeeds → e'.Succeeds → ¬e.Overtaken e')) := by
    intro e he e' he' hbefore
    obtain ⟨hhonest, -⟩ := hcalls e he
    obtain ⟨hhonest', hadvances⟩ := hcalls e' he'
    have htrace := ClockCall.trace_of_missing hhonest.missing
    have htrace' := ClockCall.trace_of_missing hhonest'.missing
    have hiff := @ClockCall.notAfter_iff boot e e' (hbefore 1 1 (by simp [htrace]) (by simp [htrace']))
      (hbefore 2 2 (by simp [htrace]) (by simp [htrace']))
      (hadvances 1 2 (by decide) (by simp [htrace']))
    rw [ClockCall.reading_eq hhonest, ClockCall.reading_eq hhonest', ← hiff]
    unfold ClockCall.Succeeds
    constructor
    · intro hall hok hok'
      exact hall _ (if_pos hok) _ (if_pos hok')
    · intro hall t ht t' ht'
      obtain ⟨hok, ht⟩ := Option.ite_none_right_eq_some.1 ht
      obtain ⟨hok', ht'⟩ := Option.ite_none_right_eq_some.1 ht'
      rw [← Option.some.inj ht, ← Option.some.inj ht']
      exact hall hok hok'
  -- The readings are those of the calls that succeed, in their order.
  unfold NeverDecreases
  rw [and_iff_left hbounds]
  unfold NeverOvertaken readings
  rw [List.pairwise_filterMap]
  constructor
  · intro hall
    exact (hbefore.and hall).imp_of_mem fun he he' h => (hpair _ he _ he' h.1).1 h.2
  · intro hall
    exact (hbefore.and hall).imp_of_mem fun he he' h => (hpair _ he _ he' h.1).2 h.2

/-- A call of a kernel that was started at time 0: the uptimes of the two reads. -/
def clockCall (ms unix : ℕ) : ClockCall where
  answers := fun i => if i = 0 then -38 else if i = 1 then ms else (unix / 1000 : ℕ)
  uptime := fun i => if i < 2 then ms else unix

/-- The reads of a call to a kernel without nanoseconds. -/
theorem trace_clockCall (ms unix : ℕ) : (clockCall ms unix).trace =
    [(ClockRead.getunixtimeNs, (-38 : ℤ)), (.gettime, ms), (.getunixtime, (unix / 1000 : ℕ))] :=
  ClockCall.trace_of_missing (show scError (-38) ≠ 0 by decide)

/-- It is answered honestly. -/
theorem honest_clockCall (ms unix : ℕ) : (clockCall ms unix).Honest 0 := by
  intro i step hstep
  rw [trace_clockCall] at hstep
  match i with
  | 0 =>
    obtain rfl := Option.some.inj hstep
    exact (by decide : scError (-38) ≠ 0)
  | 1 =>
    obtain rfl := Option.some.inj hstep
    exact Or.inr rfl
  | 2 =>
    obtain rfl := Option.some.inj hstep
    exact Or.inr (by rw [Nat.zero_add]; rfl)
  | _ + 3 => cases hstep

/-- Two such calls in turn are a run. -/
theorem clockRun_two {ms unix ms' unix' : ℕ} (h : ms ≤ unix) (hnext : unix ≤ ms')
    (h' : ms' ≤ unix') : ClockRun 0 [clockCall ms unix, clockCall ms' unix'] := by
  have hadvances : ∀ {ms unix : ℕ}, ms ≤ unix → (clockCall ms unix).Advances := by
    intro ms unix hle i j hij _
    unfold clockCall
    dsimp only
    split <;> split <;> omega
  have hbefore : (clockCall ms unix).Before (clockCall ms' unix') := by
    intro i j _ _
    unfold clockCall
    dsimp only
    split <;> split <;> omega
  refine ⟨?_, List.pairwise_pair.2 hbefore⟩
  intro e he
  rcases List.mem_cons.1 he with rfl | he
  · exact ⟨honest_clockCall ms unix, hadvances h⟩
  · obtain rfl := List.mem_singleton.1 he
    exact ⟨honest_clockCall ms' unix', hadvances h'⟩

/-- Two calls at half a second and a second and a half: the readings increase. -/
theorem neverDecreases_two : NeverDecreases [clockCall 500 500, clockCall 1500 1501] :=
  (neverDecreases_iff (clockRun_two (by decide) (by decide) (by decide))).2
    (List.pairwise_pair.2 fun _ _ h => absurd h.1 (by decide))

/-- A second begins between the reads of a call, which is then ahead of the next one. -/
theorem clock_goesBack : ClockRun 0 [clockCall 999 1000, clockCall 1001 1001] ∧
    readings [clockCall 999 1000, clockCall 1001 1001] = [(1, 999000000), (1, 1000000)] ∧
    ¬NeverDecreases [clockCall 999 1000, clockCall 1001 1001] := by
  have hreadings : readings [clockCall 999 1000, clockCall 1001 1001] =
      [(1, 999000000), (1, 1000000)] := rfl
  refine ⟨clockRun_two (by decide) (by decide) (by decide), hreadings, ?_⟩
  rintro ⟨hpairwise, -⟩
  rw [hreadings, List.pairwise_pair] at hpairwise
  rcases hpairwise with h | ⟨-, h⟩
  · exact absurd h (by decide)
  · exact absurd h (by decide)

end IUserApps.Sysdeps
