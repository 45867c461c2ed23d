import IUserApps.Runs
import IUserApps.Words
import Mathlib.Data.List.Basic
import Mathlib.Data.Option.Basic
import Mathlib.Tactic.Common

/-!
# The log saver

`log-saver/src/main.cpp` copies the kernel log to `/kernel.log`. Every round reads the ring's window,
the last `kLogSize` bytes of the log, finds where the lines new since the window it last wrote start
(`newLinesStart`), and appends them to the file (`saveRound`). The ring's start moves once it is
full, so the place is found by searching the window for the last 64 bytes of the saved one, and the
last occurrence is taken.

The log is an append-only stream here, and `System.round` lets it grow by any bytes before a poll.
`saves_of_tailDistinct` is the contract: as long as the window keeps the saved bytes' tail, which
occurs in it only once from there on, and no round fails after a part was written, the file holds
the log from the first poll's window on after every round whose writes all succeeded. A line that
repeats the tail is lost (`not_saves`).

`kernel_log`'s answer and `write`'s are inputs of a round. The heartbeat is a part of what the log
grows by; the messages to the serial port are left out.
-/

namespace IUserApps.LogSaver

open Runs

/-- The size of the buffer for the kernel's log. -/
def kLogSize : ℕ := 128 * 1024

/-- The bytes of an ASCII text. -/
def bytesOf (text : String) : List Byte := text.toList.map fun c => BitVec.ofNat 8 c.toNat

/-- What is written where lines are lacking. -/
def kGap : List Byte := bytesOf "\n[log-saver] ... lines lost here ...\n"

/-! ## Writing -/

/-- What a `write_all` comes to: its answer, the bytes that reached the file, and how many `write`
calls were made in the round so far. -/
structure Written where
  ok : Bool
  bytes : List Byte
  calls : ℕ
  deriving DecidableEq, Repr

/-- The loop of `write_all`, where `writes` gives the answers of `write` in a round. Every pass that
goes on takes at least one byte off, so the number of bytes bounds the passes. -/
def writeLoop (writes : ℕ → ℤ) : ℕ → List Byte → ℕ → Written
  | 0, data, calls => ⟨data.isEmpty, [], calls⟩
  | fuel + 1, data, calls =>
    if data = [] then ⟨true, [], calls⟩
    else if writes calls ≤ 0 then ⟨false, [], calls + 1⟩
    else
      let written := (writes calls).toNat
      let rest := writeLoop writes fuel (data.drop written) (calls + 1)
      ⟨rest.ok, data.take written ++ rest.bytes, rest.calls⟩

/-- Writes data until all of it is written or a call fails. -/
def writeAll (writes : ℕ → ℤ) (data : List Byte) (calls : ℕ) : Written :=
  writeLoop writes data.length data calls

variable {writes : ℕ → ℤ} {data : List Byte} {calls : ℕ}

/-- A `write_all` that succeeds has written its bytes, whole. -/
theorem writeLoop_bytes {fuel : ℕ} (h : (writeLoop writes fuel data calls).ok = true) :
    (writeLoop writes fuel data calls).bytes = data := by
  induction fuel generalizing data calls with
  | zero =>
    unfold writeLoop at h ⊢
    exact (List.isEmpty_iff.1 h).symm
  | succ fuel ih =>
    unfold writeLoop at h ⊢
    split at h
    · next hnil => rw [if_pos hnil, hnil]
    · next hnil =>
      rw [if_neg hnil]
      split at h
      · exact absurd h Bool.false_ne_true
      · next hw =>
        rw [if_neg hw]
        have hrest := ih h
        simp only [hrest]
        exact List.take_append_drop _ _

/-- When `write` always takes something, the loop writes everything. -/
theorem writeLoop_ok {fuel : ℕ} (hfuel : data.length ≤ fuel) (h : ∀ k, 0 < writes k) :
    (writeLoop writes fuel data calls).ok = true := by
  induction fuel generalizing data calls with
  | zero =>
    have hnil : data = [] := List.length_eq_zero_iff.1 (Nat.le_zero.1 hfuel)
    rw [hnil]
    rfl
  | succ fuel ih =>
    unfold writeLoop
    split
    · rfl
    · next hnil =>
      have hw := h calls
      have hlen : (data.drop (writes calls).toNat).length ≤ fuel := by
        rw [List.length_drop]
        omega
      rw [if_neg (by omega)]
      exact ih hlen

/-- When all is written, the bytes are the data. -/
theorem writeAll_bytes (h : (writeAll writes data calls).ok = true) :
    (writeAll writes data calls).bytes = data := writeLoop_bytes h

/-- When every call writes something, all is written. -/
theorem writeAll_ok (h : ∀ k, 0 < writes k) : (writeAll writes data calls).ok = true :=
  writeLoop_ok (Nat.le_refl _) h

/-- A `write_all` whose first `write` fails writes nothing. -/
theorem writeAll_refused (hdata : data ≠ []) (h : writes calls ≤ 0) :
    (writeAll writes data calls).ok = false ∧ (writeAll writes data calls).bytes = [] := by
  obtain ⟨b, bs, rfl⟩ := List.exists_cons_of_ne_nil hdata
  unfold writeAll
  rw [List.length_cons]
  unfold writeLoop
  rw [if_neg hdata, if_pos h]
  exact ⟨rfl, rfl⟩

/-! ## Where the new lines start -/

/-- The bytes of `tail` stand in `current` from `place` on. -/
def StandsAt (current tail : List Byte) (place : ℕ) : Prop :=
  (current.drop place).take tail.length = tail

instance (current tail : List Byte) (place : ℕ) : Decidable (StandsAt current tail place) :=
  inferInstanceAs (Decidable (_ = _))

/-- The search of `new_lines_start`, which goes down from the place below `n`. -/
def searchDown (current tail : List Byte) : ℕ → Option ℕ
  | 0 => none
  | place + 1 => if StandsAt current tail place then some place else searchDown current tail place

/-- The final bytes that `new_lines_start` looks for: the last 64, or as many as there are. -/
def anchorOf (previous : List Byte) : ℕ := min previous.length 64

/-- The final bytes that `new_lines_start` looks for. -/
def tailOf (previous : List Byte) : List Byte :=
  previous.drop (previous.length - anchorOf previous)

/-- `new_lines_start`, where `none` stands for `-1`. -/
def newLinesStart (current previous : List Byte) : Option ℕ :=
  if previous = [] then some 0
  else
    let anchor := anchorOf previous
    let below := if anchor ≤ current.length then current.length - anchor + 1 else 0
    (searchDown current (tailOf previous) below).map (· + anchor)

/-- The search finds the last place where the bytes stand. -/
theorem searchDown_eq {current tail : List Byte} {n place : ℕ} (hlt : place < n)
    (hstands : StandsAt current tail place)
    (hlast : ∀ later, place < later → later < n → ¬StandsAt current tail later) :
    searchDown current tail n = some place := by
  induction n with
  | zero => exact absurd hlt (Nat.not_lt_zero _)
  | succ n ih =>
    unfold searchDown
    rcases Nat.eq_or_lt_of_le (Nat.le_of_lt_succ hlt) with heq | hlt'
    · rw [← heq, if_pos hstands]
    · rw [if_neg (hlast n hlt' (Nat.lt_succ_self n))]
      exact ih hlt' (fun later h hn => hlast later h (Nat.lt_succ_of_lt hn))

/-- Their number. -/
theorem length_tailOf (previous : List Byte) : (tailOf previous).length = anchorOf previous := by
  unfold tailOf anchorOf
  rw [List.length_drop]
  omega

/-- The new lines start after the last place where the saved window's final bytes stand. -/
theorem newLinesStart_eq {current previous : List Byte} {place : ℕ} (hprev : previous ≠ [])
    (hfits : place + anchorOf previous ≤ current.length)
    (hstands : StandsAt current (tailOf previous) place)
    (hlast : ∀ later, place < later → later + anchorOf previous ≤ current.length →
      ¬StandsAt current (tailOf previous) later) :
    newLinesStart current previous = some (place + anchorOf previous) := by
  unfold newLinesStart
  rw [if_neg hprev]
  have hbelow : anchorOf previous ≤ current.length := by omega
  have hfound := searchDown_eq (n := current.length - anchorOf previous + 1) (by omega) hstands
    (fun later h hn => hlast later h (by omega))
  simp only [if_pos hbelow, hfound, Option.map_some]

/-! ## A round -/

/-- What the loop of `main` keeps: the window as last written (`gCopy` and `saved`), and the file,
which stays open. -/
structure Saver where
  copy : List Byte
  file : List Byte
  deriving DecidableEq, Repr

/-- A round that read a window. -/
def saveRound (window : List Byte) (writes : ℕ → ℤ) (s : Saver) : Bool × Saver :=
  if window = [] then (true, s)
  else
    let found := newLinesStart window s.copy
    let gap := if found = none then writeAll writes kGap 0 else ⟨true, [], 0⟩
    let start := found.getD 0
    let rest :=
      if gap.ok = true ∧ start < window.length then writeAll writes (window.drop start) gap.calls
      else ⟨gap.ok, [], gap.calls⟩
    let file := s.file ++ gap.bytes ++ rest.bytes
    (rest.ok, if rest.ok then ⟨window, file⟩ else ⟨s.copy, file⟩)

/-- A round whose writes cannot fail half way: the first one fails, or none does. -/
def WholeOrNothing (writes : ℕ → ℤ) : Prop := writes 0 ≤ 0 ∨ ∀ k, 0 < writes k

/-- A round that finds where the new lines start either appends them or changes nothing. -/
theorem saveRound_found {window : List Byte} {s : Saver} {start : ℕ} (hwindow : window ≠ [])
    (hfound : newLinesStart window s.copy = some start) (hwrites : WholeOrNothing writes) :
    saveRound window writes s = (true, ⟨window, s.file ++ window.drop start⟩) ∨
      saveRound window writes s = (false, s) := by
  unfold saveRound
  simp only [if_neg hwindow, hfound, Option.getD_some, reduceCtorEq, if_false, true_and,
    List.append_nil]
  split
  · next hlt =>
    have hdata : window.drop start ≠ [] := by
      intro h
      have := List.drop_eq_nil_iff.1 h
      omega
    rcases hwrites with hfirst | hall
    · right
      obtain ⟨hok, hbytes⟩ := writeAll_refused hdata hfirst
      simp only [hok, hbytes, List.append_nil, Bool.false_eq_true, if_false]
    · left
      have hok : (writeAll writes (window.drop start) 0).ok = true := writeAll_ok hall
      have hbytes := writeAll_bytes hok
      simp only [hok, hbytes, if_true]
  · next hge =>
    left
    have hdata : window.drop start = [] := List.drop_eq_nil_iff.2 (Nat.le_of_not_lt hge)
    simp only [hdata, if_true]

/-! ## The saver beside the log -/

/-- What the polls so far came to: where the first one's window started, the bounds of the last
one's window, the log's length at the last round whose writes all succeeded (before any, where the
first window started), and whether the last round was one. -/
structure History where
  first : ℕ
  last : ℕ × ℕ
  saved : ℕ
  lastSaved : Bool
  deriving DecidableEq, Repr

/-- The kernel log since the boot, and the saver beside it. -/
structure System where
  log : List Byte
  saver : Saver
  history : Option History
  deriving DecidableEq, Repr

/-- The saver before its first poll. -/
def System.start (log : List Byte) : System := ⟨log, ⟨[], []⟩, none⟩

/-- A round: what the log grows by before the poll, whether `kernel_log` answers, and the answers of
`write`. -/
structure Round where
  grows : List Byte
  answers : Bool
  writes : ℕ → ℤ

/-- Where the window of a log of `n` bytes starts: it is the last `kLogSize` bytes, or all of them. -/
def windowStart (n : ℕ) : ℕ := n - min n kLogSize

namespace System

variable (s : System) (r : Round)

/-- The log when the round polls it. -/
def polled : List Byte := s.log ++ r.grows

/-- Where the window that the round reads starts in the log. -/
def windowAt : ℕ := windowStart (s.polled r).length

/-- The window. -/
def window : List Byte := (s.polled r).drop (s.windowAt r)

/-- Where the first poll's window started, for the round's poll if there was none before. -/
def firstAt : ℕ := s.history.elim (s.windowAt r) History.first

/-- How far the log is saved. -/
def savedTo : ℕ := s.history.elim (s.windowAt r) History.saved

/-- Whether all writes of the round succeed, and the saver after it. -/
def outcome : Bool × Saver := saveRound (s.window r) r.writes s.saver

/-- A round of the saver: the log grows and is polled, and what is new in it is written. -/
def round : System :=
  if r.answers then
    { log := s.polled r
      saver := (s.outcome r).2
      history := some
        { first := s.firstAt r
          last := (s.windowAt r, (s.polled r).length)
          saved := if (s.outcome r).1 then (s.polled r).length else s.savedTo r
          lastSaved := (s.outcome r).1 } }
  else { s with log := s.polled r }

end System

/-! ## What a round is for -/

/-- Nothing is overwritten unseen: the window contains the previous one, or overlaps it by at least
64 bytes. -/
def Overlaps (s : System) (r : Round) : Prop :=
  r.answers = true → ∀ h ∈ s.history,
    s.windowAt r ≤ h.last.1 ∨ s.windowAt r + 64 ≤ h.last.2

/-- After the round, if all its writes succeeded, the file is the log from the first poll's window
on, to the end. -/
def Saves (s : System) (r : Round) : Prop :=
  r.answers = true → (s.outcome r).1 = true →
    (s.round r).saver.file = (s.polled r).drop (s.firstAt r)

/-- The bytes of `tail` stand at no place of `current` that ends beyond `done`. -/
def NotAgain (current tail : List Byte) (done : ℕ) : Prop :=
  ∀ later ≤ current.length, done < later + tail.length → later + tail.length ≤ current.length →
    ¬StandsAt current tail later

instance (current tail : List Byte) (done : ℕ) : Decidable (NotAgain current tail done) :=
  inferInstanceAs (Decidable (∀ _ ≤ _, _ → _ → ¬_))

/-- The window still has the tail of the saved bytes, also when the last rounds failed; the tail does
not occur beyond them again; and the round's writes do not fail half way. -/
def TailDistinct (s : System) (r : Round) : Prop :=
  r.answers = true →
    (∀ h ∈ s.history, h.lastSaved = false → s.windowAt r + anchorOf s.saver.copy ≤ h.saved) ∧
    (s.saver.copy ≠ [] →
      NotAgain (s.window r) (tailOf s.saver.copy) (s.savedTo r - s.windowAt r)) ∧
    WholeOrNothing r.writes

instance (s : System) (r : Round) : Decidable (Overlaps s r) :=
  inferInstanceAs (Decidable (_ → _))

instance (s : System) (r : Round) : Decidable (Saves s r) :=
  inferInstanceAs (Decidable (_ → _ → _))

/-! ## The invariant -/

/-- What a history with a poll says of the file and of the saved window. -/
structure Tracked (s : System) (h : History) : Prop where
  first_le : h.first ≤ h.saved
  saved_le : h.saved ≤ s.log.length
  file : s.saver.file = (s.log.take h.saved).drop h.first
  copy : s.saver.copy = (s.log.take h.saved).drop (h.saved - s.saver.copy.length)
  empty : s.saver.copy = [] → h.saved = h.first
  window : h.first ≤ windowStart s.log.length
  last : h.lastSaved = true → h.last.2 = h.saved ∧ h.last.1 + s.saver.copy.length = h.saved

/-- The file holds the log from the first window to where it is saved, and the saved window is a
part of the log that ends there. -/
def Tracks (s : System) : Prop :=
  (s.history = none → s.saver = ⟨[], []⟩) ∧ ∀ h ∈ s.history, Tracked s h

section

variable {s : System} {r : Round}

/-- A window begins no later than the log ends. -/
theorem windowStart_le (n : ℕ) : windowStart n ≤ n := Nat.sub_le _ _

/-- A longer log's window begins no earlier. -/
theorem windowStart_mono {m n : ℕ} (h : m ≤ n) : windowStart m ≤ windowStart n := by
  unfold windowStart
  omega

/-- The polled log is longer by what it grew. -/
theorem length_polled : (s.polled r).length = s.log.length + r.grows.length :=
  List.length_append

/-- What the log held before the poll, it still holds. -/
theorem take_polled {n : ℕ} (h : n ≤ s.log.length) : (s.polled r).take n = s.log.take n :=
  List.take_append_of_le_length h

/-- The window reaches to the end of the log. -/
theorem length_window : (s.window r).length = (s.polled r).length - s.windowAt r :=
  List.length_drop

/-- A window is empty only when the log is. -/
theorem polled_of_window_nil (h : s.window r = []) : s.polled r = [] := by
  have hlen : (s.window r).length = 0 := List.length_eq_zero_iff.2 h
  rw [length_window] at hlen
  have hat : s.windowAt r = (s.polled r).length - min (s.polled r).length kLogSize := rfl
  have hsize : 0 < kLogSize := by decide
  exact List.length_eq_zero_iff.1 (by omega)

/-- A part of a list with what follows it. -/
theorem drop_take_append {α : Type*} (l : List α) {a b : ℕ} (h : a ≤ b) (hb : b ≤ l.length) :
    (l.take b).drop a ++ l.drop b = l.drop a := by
  have hlen : a ≤ (l.take b).length := by
    rw [List.length_take]
    omega
  calc (l.take b).drop a ++ l.drop b
      = (l.take b ++ l.drop b).drop a := (List.drop_append_of_le_length hlen).symm
    _ = l.drop a := by rw [List.take_append_drop]

/-- The tail of the saved window is the last part of the log that is saved. -/
theorem tailOf_copy {h : History} (ht : Tracked s h) :
    tailOf s.saver.copy = (s.log.take h.saved).drop (h.saved - anchorOf s.saver.copy) := by
  have hlen := congrArg List.length ht.copy
  rw [List.length_drop, List.length_take] at hlen
  have hanchor : anchorOf s.saver.copy ≤ s.saver.copy.length := Nat.min_le_left _ _
  have hle := ht.saved_le
  unfold tailOf
  have hplace : h.saved - s.saver.copy.length + (s.saver.copy.length - anchorOf s.saver.copy) =
      h.saved - anchorOf s.saver.copy := by omega
  have hdrop := congrArg (List.drop (s.saver.copy.length - anchorOf s.saver.copy)) ht.copy
  rw [List.drop_drop, hplace] at hdrop
  exact hdrop

/-- What the invariant says of a poll: the saved part of the log reaches into the window, the file
holds it, and the new lines are found to start where it ends. -/
structure Found (s : System) (r : Round) : Prop where
  first_le : s.firstAt r ≤ s.savedTo r
  window_le : s.windowAt r ≤ s.savedTo r
  saved_le : s.savedTo r ≤ (s.polled r).length
  file : s.saver.file = ((s.polled r).take (s.savedTo r)).drop (s.firstAt r)
  copy : s.saver.copy =
    ((s.polled r).take (s.savedTo r)).drop (s.savedTo r - s.saver.copy.length)
  empty : s.saver.copy = [] → s.savedTo r = s.firstAt r
  found : newLinesStart (s.window r) s.saver.copy = some (s.savedTo r - s.windowAt r)

/-- With nothing saved, everything in the window is new. -/
theorem found_of_first (hs : s.history = none) (hsaver : s.saver = ⟨[], []⟩) : Found s r := by
  have hfirst : s.firstAt r = s.windowAt r := by
    unfold System.firstAt
    rw [hs, Option.elim_none]
  have hsaved : s.savedTo r = s.windowAt r := by
    unfold System.savedTo
    rw [hs, Option.elim_none]
  have hnil : ((s.polled r).take (s.windowAt r)).drop (s.windowAt r) = [] :=
    List.drop_eq_nil_of_le (List.length_take_le _ _)
  refine ⟨by omega, by omega, ?_, ?_, ?_, fun _ => by omega, ?_⟩
  · rw [hsaved]
    exact windowStart_le _
  · rw [hsaver, hfirst, hsaved, hnil]
  · rw [hsaver, hsaved, List.length_nil, Nat.sub_zero, hnil]
  · rw [hsaver, hsaved, Nat.sub_self]
    rfl

/-- The tail of the saved window stands in the new window where the saved part of the log ends, and
there only or before, so the search ends there. -/
theorem found_of_tracked {h : History} (hs : s.history = some h) (ht : Tracked s h)
    (hkept : s.windowAt r + anchorOf s.saver.copy ≤ h.saved)
    (hlast : s.saver.copy ≠ [] →
      NotAgain (s.window r) (tailOf s.saver.copy) (h.saved - s.windowAt r)) : Found s r := by
  have hfirst : s.firstAt r = h.first := by
    unfold System.firstAt
    rw [hs, Option.elim_some]
  have hsaved : s.savedTo r = h.saved := by
    unfold System.savedTo
    rw [hs, Option.elim_some]
  have hle := ht.saved_le
  have hpolled : s.log.length ≤ (s.polled r).length := by
    rw [length_polled]
    omega
  refine ⟨?_, by omega, by omega, ?_, ?_, ?_, ?_⟩
  · rw [hfirst, hsaved]
    exact ht.first_le
  · rw [hfirst, hsaved, take_polled hle]
    exact ht.file
  · rw [hsaved, take_polled hle]
    exact ht.copy
  · rw [hfirst, hsaved]
    exact ht.empty
  · rw [hsaved]
    by_cases hcopy : s.saver.copy = []
    · -- Every round so far failed, so the first window is still to be written.
      have hempty := ht.empty hcopy
      have hmono : windowStart s.log.length ≤ s.windowAt r := windowStart_mono hpolled
      have hwindow := ht.window
      have hzero : h.saved - s.windowAt r = 0 := by omega
      rw [hzero, newLinesStart, if_pos hcopy]
    · -- The tail of the copy stands in the window where it was saved, and nowhere behind.
      generalize hplace : h.saved - anchorOf s.saver.copy - s.windowAt r = place
      have hend : h.saved - s.windowAt r = place + anchorOf s.saver.copy := by omega
      rw [hend]
      refine newLinesStart_eq hcopy ?_ ?_ ?_
      · rw [length_window]
        omega
      · unfold StandsAt
        rw [length_tailOf, tailOf_copy ht, ← take_polled (r := r) hle]
        unfold System.window
        have hstart : s.windowAt r + place = h.saved - anchorOf s.saver.copy := by omega
        have hwidth : h.saved - (h.saved - anchorOf s.saver.copy) = anchorOf s.saver.copy := by
          omega
        rw [List.drop_drop, hstart, List.drop_take, hwidth]
      · intro later hlt hfits
        have hnot := hlast hcopy later (by omega)
        rw [length_tailOf] at hnot
        exact hnot (by omega) hfits

/-- In a run that keeps the invariant, a poll finds where the new lines start. -/
theorem found_of_tracks (ht : Tracks s) (hr : r.answers = true) (ho : Overlaps s r)
    (hd : TailDistinct s r) : Found s r := by
  obtain ⟨hfailed, hlast, -⟩ := hd hr
  cases hs : s.history with
  | none => exact found_of_first hs (ht.1 hs)
  | some h =>
    have hmem : h ∈ s.history := Option.mem_def.2 hs
    have htracked := ht.2 h hmem
    have hsaved : s.savedTo r = h.saved := by
      unfold System.savedTo
      rw [hs, Option.elim_some]
    rw [hsaved] at hlast
    refine found_of_tracked hs htracked ?_ hlast
    cases hok : h.lastSaved with
    | false => exact hfailed h hmem hok
    | true =>
      -- The saved window is the last one, which the new one contains or overlaps by 64 bytes.
      obtain ⟨hend, hlen⟩ := htracked.last hok
      have hanchor : anchorOf s.saver.copy = min s.saver.copy.length 64 := rfl
      rcases ho hr h hmem with hwhole | hoverlap <;> omega

/-- What a round does when the place is found: it appends what the log has beyond the saved part, or
changes nothing. -/
theorem outcome_of_found (hf : Found s r) (hwrites : WholeOrNothing r.writes) :
    (s.outcome r = (true, ⟨s.window r, (s.polled r).drop (s.firstAt r)⟩)) ∨
      (s.outcome r = (false, s.saver)) ∨
      (s.polled r = [] ∧ s.outcome r = (true, s.saver)) := by
  unfold System.outcome
  by_cases hwindow : s.window r = []
  · right
    right
    refine ⟨polled_of_window_nil hwindow, ?_⟩
    rw [saveRound, if_pos hwindow]
  · rcases saveRound_found hwindow hf.found hwrites with hok | hfail
    · left
      have hplace : s.windowAt r + (s.savedTo r - s.windowAt r) = s.savedTo r :=
        Nat.add_sub_cancel' hf.window_le
      have hfile : s.saver.file ++ (s.window r).drop (s.savedTo r - s.windowAt r) =
          (s.polled r).drop (s.firstAt r) := by
        unfold System.window
        rw [List.drop_drop, hplace, hf.file]
        exact drop_take_append _ hf.first_le hf.saved_le
      rw [hok, hfile]
    · exact Or.inr (Or.inl hfail)

/-- A poll's window never starts before the first one's. -/
theorem firstAt_le (ht : Tracks s) : s.firstAt r ≤ s.windowAt r := by
  unfold System.firstAt
  cases hs : s.history with
  | none =>
    exact Nat.le_of_eq (Option.elim_none ..)
  | some h =>
    rw [Option.elim_some]
    have hwindow := (ht.2 h (Option.mem_def.2 hs)).window
    have hmono : windowStart s.log.length ≤ windowStart (s.polled r).length := by
      apply windowStart_mono
      rw [length_polled]
      omega
    exact Nat.le_trans hwindow hmono

/-- A round that does not read the log only lets it grow. -/
theorem tracked_grow {h : History} (ht : Tracked s h) (log : List Byte) :
    Tracked { s with log := s.log ++ log } h := by
  have htake : (s.log ++ log).take h.saved = s.log.take h.saved :=
    List.take_append_of_le_length ht.saved_le
  have hlen : s.log.length ≤ (s.log ++ log).length := by
    rw [List.length_append]
    omega
  refine ⟨ht.first_le, Nat.le_trans ht.saved_le hlen, ?_, ?_, ht.empty,
    Nat.le_trans ht.window (windowStart_mono hlen), ht.last⟩
  · rw [htake]
    exact ht.file
  · rw [htake]
    exact ht.copy

/-- A round that reads the log and finds the place keeps the invariant. -/
theorem tracked_round (ht : Tracks s) (hf : Found s r) (hwrites : WholeOrNothing r.writes)
    (hr : r.answers = true) : Tracks (s.round r) := by
  have hfirst := firstAt_le (r := r) ht
  have hwindow : s.windowAt r ≤ (s.polled r).length := windowStart_le _
  have hround : s.round r =
      { log := s.polled r
        saver := (s.outcome r).2
        history := some
          { first := s.firstAt r
            last := (s.windowAt r, (s.polled r).length)
            saved := if (s.outcome r).1 then (s.polled r).length else s.savedTo r
            lastSaved := (s.outcome r).1 } } := by
    unfold System.round
    rw [if_pos hr]
  rw [hround]
  refine ⟨fun h => absurd h (Option.some_ne_none _), ?_⟩
  intro h hh
  obtain rfl := Option.mem_some_iff.1 hh
  -- By what the round does to the file: it is written, fails, or has nothing to write.
  rcases outcome_of_found hf hwrites with hok | hfail | ⟨hnil, hok⟩
  · -- The round is written: the window is the new copy, and all of the log is saved.
    rw [hok]
    have hlen := length_window (s := s) (r := r)
    have hplace : (s.polled r).length - (s.window r).length = s.windowAt r := by omega
    have hend : s.windowAt r + (s.window r).length = (s.polled r).length := by omega
    refine ⟨Nat.le_trans hfirst hwindow, Nat.le_refl _, ?_, ?_, ?_, hfirst, ?_⟩
    · rw [if_pos rfl, List.take_length]
    · rw [if_pos rfl, List.take_length, hplace]
      rfl
    · -- An empty window is that of an empty log.
      intro hempty
      have hpolled := polled_of_window_nil hempty
      rw [hpolled, List.length_nil] at hwindow
      rw [if_pos rfl, hpolled, List.length_nil]
      exact Nat.le_antisymm (Nat.zero_le _) (Nat.le_trans hfirst hwindow)
    · intro _
      exact ⟨rfl, hend⟩
  · -- The round failed, and left the file and the copy as they were.
    rw [hfail]
    refine ⟨hf.first_le, hf.saved_le, hf.file, hf.copy, hf.empty, hfirst, ?_⟩
    intro h
    exact absurd h Bool.false_ne_true
  · -- The log is still empty, and so is everything saved of it.
    have hfile := hf.file
    have hcopy := hf.copy
    rw [hnil, List.take_nil, List.drop_nil] at hfile hcopy
    rw [hnil, List.length_nil] at hwindow
    have hzero : s.firstAt r = 0 := Nat.le_zero.1 (Nat.le_trans hfirst hwindow)
    have hat : s.windowAt r = 0 := Nat.le_zero.1 hwindow
    rw [hok, hzero, hat, hnil]
    refine ⟨Nat.le_refl _, Nat.le_refl _, ?_, ?_, fun _ => rfl, Nat.zero_le _, fun _ => ?_⟩
    · rw [hfile]
      rfl
    · rw [hcopy]
      rfl
    · rw [hcopy]
      exact ⟨rfl, rfl⟩

/-- Every round that meets the condition keeps the invariant. -/
theorem round_tracks (ht : Tracks s) (ho : Overlaps s r) (hd : TailDistinct s r) :
    Tracks (s.round r) := by
  cases hr : r.answers with
  | true => exact tracked_round ht (found_of_tracks ht hr ho hd) (hd hr).2.2 hr
  | false =>
    have hround : s.round r = { s with log := s.log ++ r.grows } := by
      unfold System.round
      rw [hr, if_neg Bool.false_ne_true]
      rfl
    rw [hround]
    exact ⟨ht.1, fun h hh => tracked_grow (ht.2 h hh) _⟩

/-- After a round of which all writes succeed, the file is the log from the first window on. -/
theorem saves_of_found (hf : Found s r) (hwrites : WholeOrNothing r.writes) : Saves s r := by
  intro hr hsaved
  have hfile : (s.round r).saver = (s.outcome r).2 := by
    unfold System.round
    rw [if_pos hr]
  rw [hfile]
  rcases outcome_of_found hf hwrites with hok | hfail | ⟨hnil, hok⟩
  · rw [hok]
  · rw [hfail] at hsaved
    exact absurd hsaved Bool.false_ne_true
  · rw [hok, hf.file, hnil, List.take_nil]

end

/-- Over every run of rounds whose windows overlap, from a log of any content: as long as the window
keeps the tail of the saved bytes, which occurs there only once, and no round's writes fail half way,
the file holds the log from the first window on, each byte once, after every round whose writes all
succeed. -/
theorem saves_of_tailDistinct (log : List Byte) (rs : List Round)
    (ho : Along System.round Overlaps (System.start log) rs)
    (hd : Along System.round TailDistinct (System.start log) rs) :
    Along System.round Saves (System.start log) rs := by
  have hstart : Tracks (System.start log) := by
    refine ⟨fun _ => rfl, ?_⟩
    intro h hh
    exact absurd hh (Option.not_mem_none h)
  have hstep : ∀ s r, Tracks s → Overlaps s r ∧ TailDistinct s r → Tracks (s.round r) :=
    fun s r ht h => round_tracks ht h.1 h.2
  apply Along.of_invariant Tracks hstep ?_ hstart (along_and.2 ⟨ho, hd⟩)
  intro s r ht h
  cases hr : r.answers with
  | true => exact saves_of_found (found_of_tracks ht hr h.1 h.2) (h.2 hr).2.2
  | false =>
    intro hanswers
    rw [hr] at hanswers
    exact absurd hanswers Bool.false_ne_true

/-- A heartbeat line of the saver itself. -/
def heartbeat (uptime : String) : List Byte :=
  bytesOf ("[log-saver] alive uptime_ms=" ++ uptime ++ "\n")

/-- A line of the kernel's that comes again. -/
def resetLine : List Byte :=
  bytesOf "usb: port 3: device did not answer the reset, it is tried again\n"

/-- A round in which `kernel_log` answers and every `write` takes everything. -/
def quietRound (grows : List Byte) : Round := ⟨grows, true, fun _ => 1024⟩

/-- In a quiet round every write is whole. -/
theorem wholeOrNothing_quiet (grows : List Byte) : WholeOrNothing (quietRound grows).writes := by
  right
  intro _
  exact Int.ofNat_lt.2 (by decide : 0 < 1024)

/-- Three rounds in the second of which the first write fails: nothing is lost by it. -/
theorem saves_of_tailDistinct_retry :
    let rs := [quietRound (heartbeat "4000"), ⟨resetLine, true, fun _ => -1⟩,
      quietRound (heartbeat "5000")]
    Along System.round Saves (System.start []) rs :=
  saves_of_tailDistinct [] _ (by decide +kernel)
    ⟨fun _ => ⟨by decide +kernel, by decide +kernel, wholeOrNothing_quiet _⟩,
      fun _ => ⟨by decide +kernel, by decide +kernel, Or.inl (by decide)⟩,
      fun _ => ⟨by decide +kernel, by decide +kernel, wholeOrNothing_quiet _⟩, trivial⟩

/-- A line that comes again right after the end of the saved window is taken for its end, and is not
written. -/
theorem not_saves : ¬∀ log rs, Along System.round Overlaps (System.start log) rs →
    Along System.round Saves (System.start log) rs := by
  intro h
  have hsaves := h (heartbeat "4000") [quietRound resetLine, quietRound resetLine]
    (by decide +kernel)
  revert hsaves
  decide +kernel

end IUserApps.LogSaver
