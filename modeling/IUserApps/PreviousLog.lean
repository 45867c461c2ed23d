import IUserApps.LogSaver

/-!
# The log of the last boot

At its start the log saver copies what the last boot left in `/kernel.log` to `/previous.log`
(`keep_previous`), and then empties `/kernel.log` for its own. The machine may stop at any moment,
also between two calls of this, and is booted again. `Machine.answer` is the next call of the
program with its answer, `Event.round` a round of its loop, and `Event.cut` one in which the machine
stops after some bytes.

As long as no call up to the end of the copying fails, the log that the last boot left is not lost:
it is in `/kernel.log` still, or its first `kLogSize` bytes are in `/previous.log`. Whatever fails,
`/previous.log` is the beginning of one boot's log (`previous_kept`).
-/

namespace IUserApps.LogSaver

open Runs

/-- What a handle that could not be opened is. -/
def fail : ℤ := -1

/-- Where the program is: it does not run, reads the last log with what it has read of it, is about
to write that, writes it from a place on, is about to open its own log, or saves. -/
inductive Phase
  | off
  | keeping (copy : List Byte)
  | storing (copy : List Byte)
  | copying (copy : List Byte) (done : ℕ)
  | opening
  | saving (saver : Saver)

/-- The two files, and the logs that were left behind with something in them. -/
structure Machine where
  log : Option (List Byte)
  previous : Option (List Byte)
  phase : Phase
  left : List (List Byte)

/-- What happens: the next call of the program is answered, a round, a round in which the machine
stops after so many bytes, or it stops elsewhere. -/
inductive Event
  | answer (a : ℤ)
  | round (window : List Byte) (writes : ℕ → ℤ)
  | cut (window : List Byte) (writes : ℕ → ℤ) (n : ℕ)
  | stop

namespace Machine

variable (m : Machine)

/-- The bytes of `/kernel.log`. -/
def contents : List Byte := m.log.getD []

/-- The last log that was left behind. -/
def last : List Byte := m.left.getLast?.getD []

/-- A log without bytes is not worth keeping. -/
def leave (log : List Byte) : List (List Byte) := if log = [] then [] else [log]

/-- The machine before its first boot; a log with something in it was left behind. -/
def start (log previous : Option (List Byte)) : Machine :=
  ⟨log, previous, .off, leave (log.getD [])⟩

/-- The machine stops. -/
def stop : Machine :=
  match m.phase with
  | .saving _ => { m with phase := .off, left := m.left ++ leave m.contents }
  | _ => { m with phase := .off }

/-- What a read with this answer gives. -/
def got (copy : List Byte) (a : ℤ) : List Byte :=
  if a ≤ 0 then [] else (m.contents.drop copy.length).take (min a.toNat (kLogSize - copy.length))

/-- Where `keep_previous` goes on once the buffer has these bytes. -/
def afterRead (copy got : List Byte) : Phase :=
  if got = [] then (if copy = [] then .opening else .storing copy)
  else if (copy ++ got).length < kLogSize then .keeping (copy ++ got)
  else .storing (copy ++ got)

/-- The next call of the program, with its answer. -/
def answer (a : ℤ) : Machine :=
  match m.phase with
  | .off => { m with phase := if m.log = none ∨ a = fail then .opening else .keeping [] }
  | .keeping copy => { m with phase := afterRead copy (m.got copy a) }
  | .storing copy =>
    if a = fail then { m with phase := .opening }
    else { m with previous := some [], phase := .copying copy 0 }
  | .copying copy done =>
    if a ≤ 0 then { m with phase := .opening }
    else
      let n := min a.toNat (copy.length - done)
      { m with
        previous := m.previous.map (· ++ (copy.drop done).take n)
        phase := if done + n < copy.length then .copying copy (done + n) else .opening }
  | .opening =>
    if a = fail then { m with phase := .off }
    else { m with log := some [], phase := .saving ⟨[], []⟩ }
  | .saving _ => m

/-- What an event does. -/
def step : Event → Machine
  | .answer a => m.answer a
  | .round window writes =>
    match m.phase with
    | .saving s =>
      let s' := (saveRound window writes s).2
      { m with log := some s'.file, phase := .saving s' }
    | _ => m
  | .cut window writes n =>
    match m.phase with
    | .saving s =>
      { m with log := some ((saveRound window writes s).2.file.take (s.file.length + n)) }.stop
    | _ => m.stop
  | .stop => m.stop

/-! ## What is kept -/

/-- The beginning of the last log is in `/previous.log`. -/
def Kept : Prop := m.last = [] ∨ m.previous = some (m.last.take kLogSize)

/-- The last log is where it was left, or its beginning is kept and nothing would replace it. -/
def Held : Prop := m.log = some m.last ∨ m.contents = [] ∧ m.Kept

/-- The call does not fail, if it is one of the copying. -/
def Works : Event → Prop
  | .answer a =>
    match m.phase with
    | .off => m.log = none ∨ a ≠ fail
    | .keeping copy => 0 < a ∨ m.contents.length ≤ copy.length
    | .storing _ => a ≠ fail
    | .copying _ _ => 0 < a
    | _ => True
  | _ => True

/-- The last log is not lost. -/
def Keeps : Prop :=
  match m.phase with
  | .off => m.Held
  | .keeping copy => m.Held ∧ copy = m.contents.take copy.length ∧ copy.length < kLogSize
  | .storing copy => m.log = some m.last ∧ copy = m.last.take kLogSize ∧ copy ≠ []
  | .copying copy done => m.log = some m.last ∧ copy = m.last.take kLogSize ∧
      m.previous = some (copy.take done) ∧ done < copy.length
  | .opening => m.Held ∧ m.Kept
  | .saving s => m.log = some s.file ∧ m.Kept

variable {m} {copy : List Byte} {a : ℤ}

/-- The contents of a log that is there. -/
theorem contents_of_log {log : List Byte} (h : m.log = some log) : m.contents = log := by
  unfold contents
  rw [h]
  rfl

/-- Without bytes in `/kernel.log`, the last log is kept. -/
theorem Held.kept (h : m.Held) (hnil : m.contents = []) : m.Kept := by
  rcases h with hlog | ⟨-, hkept⟩
  · exact .inl ((contents_of_log hlog).symm.trans hnil)
  · exact hkept

/-- With bytes in it, it is the last log. -/
theorem Held.log (h : m.Held) (hne : m.contents ≠ []) : m.log = some m.last :=
  h.resolve_right fun hempty => hne hempty.1

/-- A prefix is as long as itself. -/
theorem take_length_take (l : List Byte) (n : ℕ) : l.take n = l.take (l.take n).length := by
  rw [List.length_take, List.take_eq_take_iff]
  omega

/-- While the program saves, the log is the saver's and the last one is kept. -/
theorem Keeps.saving (h : m.Keeps) {s : Saver} (hphase : m.phase = .saving s) :
    m.log = some s.file ∧ m.Kept := by
  unfold Keeps at h
  rwa [hphase] at h

/-- A round is one of a program that saves, or there is none. -/
theorem round_eq (m : Machine) (window : List Byte) (writes : ℕ → ℤ) :
    m.step (.round window writes) = m ∨ ∃ s, m.phase = .saving s ∧
      m.step (.round window writes) =
        { m with
          log := some (saveRound window writes s).2.file
          phase := .saving (saveRound window writes s).2 } := by
  obtain ⟨log, previous, phase, left⟩ := m
  cases phase with
  | saving s => exact .inr ⟨s, rfl, rfl⟩
  | _ => exact .inl rfl

/-- In a round that is cut the machine stops with some log, or where it is. -/
theorem cut_eq (m : Machine) (window : List Byte) (writes : ℕ → ℤ) (n : ℕ) :
    m.step (.cut window writes n) = m.stop ∨ ∃ s log, m.phase = .saving s ∧
      m.step (.cut window writes n) = { m with log := some log }.stop := by
  obtain ⟨log, previous, phase, left⟩ := m
  cases phase with
  | saving s => exact .inr ⟨s, _, rfl, rfl⟩
  | _ => exact .inl rfl

/-- A read goes on where the last one stopped. -/
theorem append_got (hcopy : copy = m.contents.take copy.length) (hgot : m.got copy a ≠ []) :
    copy ++ m.got copy a =
      m.contents.take (copy.length + min a.toNat (kLogSize - copy.length)) := by
  have ha : ¬a ≤ 0 := fun hnone => hgot (if_pos hnone)
  unfold got
  rw [if_neg ha, List.take_add, ← hcopy]

/-- A read that works and gives nothing is at the end. -/
theorem at_end (hworks : 0 < a ∨ m.contents.length ≤ copy.length) (hlt : copy.length < kLogSize)
    (hgot : m.got copy a = []) : m.contents.length ≤ copy.length := by
  rcases hworks with ha | hend
  · unfold got at hgot
    rw [if_neg (by omega), List.take_eq_nil_iff] at hgot
    rcases hgot with hzero | hdrop
    · omega
    · exact List.drop_eq_nil_iff.1 hdrop
  · exact hend

/-- A read that works goes on with more of the last log. -/
theorem keeping_keeps (hheld : m.Held) (hcopy : copy = m.contents.take copy.length)
    (hlt : copy.length < kLogSize) (hworks : 0 < a ∨ m.contents.length ≤ copy.length) :
    Keeps { m with phase := afterRead copy (m.got copy a) } := by
  unfold afterRead
  split
  · next hgot =>
    have hend := at_end hworks hlt hgot
    rw [List.take_of_length_le hend] at hcopy
    split
    · next hnil => exact ⟨hheld, hheld.kept (hcopy.symm.trans hnil)⟩
    · next hne =>
      have hlog := hheld.log (hcopy ▸ hne)
      have hlast : m.last = copy := (contents_of_log hlog).symm.trans hcopy.symm
      refine ⟨hlog, ?_, hne⟩
      show copy = m.last.take kLogSize
      rw [hlast, List.take_of_length_le (Nat.le_of_lt hlt)]
  · next hgot =>
    have happend := append_got hcopy hgot
    have hne : m.contents ≠ [] := by
      intro hnil
      rw [hnil, List.take_nil] at happend
      exact hgot (List.append_eq_nil_iff.1 happend).2
    split
    · next hshort =>
      refine ⟨hheld, ?_, hshort⟩
      show copy ++ m.got copy a = m.contents.take (copy ++ m.got copy a).length
      rw [happend]
      exact take_length_take _ _
    · next hfull =>
      have hlog := hheld.log hne
      refine ⟨hlog, ?_, fun hnil => hgot (List.append_eq_nil_iff.1 hnil).2⟩
      show copy ++ m.got copy a = m.last.take kLogSize
      rw [happend, List.length_take] at hfull
      rw [happend, ← contents_of_log hlog, List.take_eq_take_iff]
      omega

/-- A piece of the copy is written behind what was. -/
theorem take_append_piece (copy : List Byte) (done n : ℕ) :
    copy.take done ++ (copy.drop done).take n = copy.take (done + n) := List.take_add.symm

/-- A call that works loses nothing of the last log. -/
theorem answer_keeps (h : m.Keeps) (hworks : m.Works (.answer a)) : (m.answer a).Keeps := by
  obtain ⟨log, previous, phase, left⟩ := m
  cases phase with
  | off =>
    unfold answer
    dsimp only
    split
    · next hopen =>
      -- The log can be opened if there is one.
      have hnone : log = none :=
        hopen.elim id fun hfail => hworks.elim id fun hok => absurd hfail hok
      exact ⟨h, Held.kept h (by rw [hnone]; rfl)⟩
    · exact ⟨h, rfl, by decide⟩
  | keeping copy => exact keeping_keeps h.1 h.2.1 h.2.2 hworks
  | storing copy =>
    unfold answer
    dsimp only
    rw [if_neg hworks]
    exact ⟨h.1, h.2.1, rfl, List.length_pos_iff.2 h.2.2⟩
  | copying copy done =>
    obtain ⟨hlog, hcopy, hprevious, hlt⟩ := h
    have hpos : 0 < a := hworks
    have ha : ¬a ≤ 0 := by omega
    have hwritten : previous.map (· ++ (copy.drop done).take (min a.toNat (copy.length - done))) =
        some (copy.take (done + min a.toNat (copy.length - done))) := by
      rw [show previous = _ from hprevious, Option.map_some, take_append_piece]
    unfold answer
    dsimp only
    rw [if_neg ha, hwritten]
    split
    · next hmore => exact ⟨hlog, hcopy, rfl, hmore⟩
    · next hall =>
      refine ⟨.inl hlog, .inr ?_⟩
      show some (copy.take _) = some _
      rw [List.take_of_length_le (Nat.le_of_not_lt hall)]
      exact congrArg some hcopy
  | opening =>
    unfold answer
    dsimp only
    split
    · exact h.1
    · exact ⟨rfl, h.2⟩
  | saving s => exact h

/-- What the machine leaves when it stops while it saves. -/
theorem saving_stop_keeps {log : List Byte} {s : Saver} (hphase : m.phase = .saving s)
    (hlog : m.log = some log) (hkept : m.Kept) : m.stop.Keeps := by
  have hcontents := contents_of_log hlog
  obtain ⟨mlog, previous, phase, left⟩ := m
  obtain rfl : phase = .saving s := hphase
  show Held ⟨mlog, previous, .off, left ++ leave _⟩
  rw [hcontents]
  by_cases hnil : log = []
  · refine .inr ⟨hcontents.trans hnil, ?_⟩
    rw [leave, if_pos hnil, List.append_nil]
    exact hkept
  · refine .inl ?_
    unfold last leave
    rw [if_neg hnil]
    simpa using hlog

/-- Nothing else is lost when the machine stops: the copying starts anew. -/
theorem stop_keeps (h : m.Keeps) : m.stop.Keeps := by
  obtain ⟨log, previous, phase, left⟩ := m
  cases phase with
  | off => exact h
  | keeping copy => exact h.1
  | storing copy => exact .inl h.1
  | copying copy done => exact .inl h.1
  | opening => exact h.1
  | saving s => exact saving_stop_keeps (s := s) rfl h.1 h.2

/-- An event whose calls work loses nothing of the last log. -/
theorem step_keeps (h : m.Keeps) {event : Event} (hworks : m.Works event) :
    (m.step event).Keeps := by
  cases event with
  | answer a => exact answer_keeps h hworks
  | round window writes =>
    rcases round_eq m window writes with heq | ⟨s, hphase, heq⟩
    · rwa [heq]
    · rw [heq]
      exact ⟨rfl, (h.saving hphase).2⟩
  | cut window writes n =>
    rcases cut_eq m window writes n with heq | ⟨s, log, hphase, heq⟩
    · rw [heq]
      exact stop_keeps h
    · rw [heq]
      exact saving_stop_keeps (s := s) hphase rfl (h.saving hphase).2
  | stop => exact stop_keeps h

/-! ## What is ever written -/

/-- The bytes are the beginning of a log that was left behind. -/
def Beginning (m : Machine) (copy : List Byte) : Prop :=
  ∃ l ∈ m.left, copy = l.take copy.length ∧ copy.length ≤ kLogSize

/-- `/previous.log` is what it was at first, or the beginning of one log. -/
def OneLog (first : Option (List Byte)) (m : Machine) : Prop :=
  m.previous = first ∨ ∃ copy, m.Beginning copy ∧ m.previous = some copy

/-- What is in the buffer is of one log, and so is what was written of it. -/
def Written (m : Machine) : Prop :=
  match m.phase with
  | .keeping copy => copy = m.contents.take copy.length ∧ copy.length < kLogSize
  | .storing copy => m.Beginning copy
  | .copying copy done => m.Beginning copy ∧ m.previous = some (copy.take done)
  | _ => True

/-- While the program does not save, what is in `/kernel.log` was left behind. -/
def Left (m : Machine) : Prop :=
  (∃ s, m.phase = .saving s) ∨ m.contents = [] ∨ m.contents ∈ m.left

/-- What holds of the files whatever fails. -/
structure Sound (first : Option (List Byte)) (m : Machine) : Prop where
  oneLog : m.OneLog first
  written : m.Written
  left : m.Left

/-- What a log begins with begins with less. -/
theorem Beginning.take (h : m.Beginning copy) (n : ℕ) : m.Beginning (copy.take n) := by
  obtain ⟨l, hl, hcopy, hlength⟩ := h
  refine ⟨l, hl, ?_, by rw [List.length_take]; omega⟩
  rw [hcopy, List.take_take]
  exact take_length_take _ _

/-- What was read of `/kernel.log` is of a log that was left behind. -/
theorem beginning_of_contents (hleft : m.contents = [] ∨ m.contents ∈ m.left)
    (hcopy : copy = m.contents.take copy.length) (hne : copy ≠ [])
    (hle : copy.length ≤ kLogSize) : m.Beginning copy := by
  refine ⟨m.contents, hleft.resolve_left fun hnil => hne ?_, hcopy, hle⟩
  rwa [hnil, List.take_nil] at hcopy

variable {first : Option (List Byte)}

/-- While the program does not save, the log was left behind. -/
theorem Sound.contents_left (h : m.Sound first) (hphase : ∀ s, m.phase ≠ .saving s) :
    m.contents = [] ∨ m.contents ∈ m.left :=
  h.left.resolve_left fun ⟨s, hs⟩ => hphase s hs

/-- A read leaves the beginning of a log in the buffer. -/
theorem keeping_sound (h : m.Sound first) (hphase : m.phase = .keeping copy) :
    Sound first { m with phase := afterRead copy (m.got copy a) } := by
  have hleft : m.contents = [] ∨ m.contents ∈ m.left :=
    h.contents_left fun s hs => nomatch hs.symm.trans hphase
  obtain ⟨hcopy, hlt⟩ : copy = m.contents.take copy.length ∧ copy.length < kLogSize := by
    have hwritten := h.written
    unfold Written at hwritten
    rwa [hphase] at hwritten
  refine ⟨h.oneLog, ?_, .inr hleft⟩
  unfold afterRead
  split
  · split
    · trivial
    · next hne => exact beginning_of_contents hleft hcopy hne (Nat.le_of_lt hlt)
  · next hgot =>
    have happend := append_got hcopy hgot
    have hall : copy ++ m.got copy a = m.contents.take (copy ++ m.got copy a).length := by
      rw [happend]
      exact take_length_take _ _
    split
    · next hshort => exact ⟨hall, hshort⟩
    · refine beginning_of_contents hleft hall (fun hnil => hgot ?_) ?_
      · exact (List.append_eq_nil_iff.1 hnil).2
      · rw [happend, List.length_take]
        omega

/-- Every answer leaves the files sound. -/
theorem answer_sound (h : m.Sound first) : (m.answer a).Sound first := by
  obtain ⟨log, previous, phase, left⟩ := m
  cases phase with
  | off =>
    have hleft := h.contents_left nofun
    refine ⟨h.oneLog, ?_, .inr hleft⟩
    unfold answer
    dsimp only
    split
    · trivial
    · exact ⟨rfl, by decide⟩
  | keeping copy => exact keeping_sound h rfl
  | storing copy =>
    have hleft := h.contents_left nofun
    have hbeginning : Beginning _ copy := h.written
    unfold answer
    dsimp only
    split
    · exact ⟨h.oneLog, trivial, .inr hleft⟩
    · exact ⟨.inr ⟨[], hbeginning.take 0, rfl⟩, ⟨hbeginning, rfl⟩, .inr hleft⟩
  | copying copy done =>
    have hleft := h.contents_left nofun
    obtain ⟨hbeginning, hprevious⟩ : Beginning _ copy ∧ previous = some (copy.take done) :=
      h.written
    unfold answer
    dsimp only
    split
    · exact ⟨h.oneLog, trivial, .inr hleft⟩
    · rw [hprevious, Option.map_some, take_append_piece]
      refine ⟨.inr ⟨_, hbeginning.take _, rfl⟩, ?_, .inr hleft⟩
      split
      · exact ⟨hbeginning, rfl⟩
      · trivial
  | opening =>
    have hleft := h.contents_left nofun
    unfold answer
    dsimp only
    split
    · exact ⟨h.oneLog, trivial, .inr hleft⟩
    · exact ⟨h.oneLog, trivial, .inl ⟨_, rfl⟩⟩
  | saving s => exact h

/-- A stop while the program saves leaves its log behind. -/
theorem saving_stop_sound {s : Saver} (hphase : m.phase = .saving s) (h : m.OneLog first) :
    m.stop.Sound first := by
  obtain ⟨log, previous, phase, left⟩ := m
  obtain rfl : phase = .saving s := hphase
  refine ⟨?_, trivial, .inr ?_⟩
  · refine h.imp_right ?_
    rintro ⟨copy, ⟨l, hl, hcopy⟩, hprevious⟩
    exact ⟨copy, ⟨l, List.mem_append_left _ hl, hcopy⟩, hprevious⟩
  · show log.getD [] = [] ∨ log.getD [] ∈ left ++ leave (log.getD [])
    unfold leave
    split
    · next hnil => exact .inl hnil
    · exact .inr (List.mem_append_right _ List.mem_cons_self)

/-- A stop leaves the files sound. -/
theorem stop_sound (h : m.Sound first) : m.stop.Sound first := by
  obtain ⟨log, previous, phase, left⟩ := m
  cases phase with
  | saving s => exact saving_stop_sound (s := s) rfl h.oneLog
  | _ => exact ⟨h.oneLog, trivial, .inr (h.contents_left nofun)⟩

/-- Every event leaves the files sound. -/
theorem step_sound (h : m.Sound first) (event : Event) : (m.step event).Sound first := by
  cases event with
  | answer a => exact answer_sound h
  | round window writes =>
    rcases round_eq m window writes with heq | ⟨s, -, heq⟩
    · rwa [heq]
    · rw [heq]
      exact ⟨h.oneLog, trivial, .inl ⟨_, rfl⟩⟩
  | cut window writes n =>
    rcases cut_eq m window writes n with heq | ⟨s, log, hphase, heq⟩
    · rw [heq]
      exact stop_sound h
    · rw [heq]
      exact saving_stop_sound (s := s) hphase h.oneLog
  | stop => exact stop_sound h

/-! ## Over any boots -/

/-- Before the first boot the log is where it was left. -/
theorem start_held (log previous : Option (List Byte)) : (start log previous).Held := by
  cases log with
  | none => exact .inr ⟨rfl, .inl rfl⟩
  | some log =>
    by_cases hnil : log = []
    · rw [hnil]
      exact .inr ⟨rfl, .inl rfl⟩
    · have hleave : leave log = [log] := if_neg hnil
      refine .inl ?_
      show some log = some ((leave log).getLast?.getD [])
      rw [hleave]
      rfl

/-- Before the first boot the files are sound. -/
theorem start_sound (log previous : Option (List Byte)) :
    (start log previous).Sound previous := by
  refine ⟨.inl rfl, trivial, .inr ?_⟩
  show log.getD [] = [] ∨ log.getD [] ∈ leave (log.getD [])
  unfold leave
  split
  · next hnil => exact .inl hnil
  · exact .inr List.mem_cons_self

/-- Unless the program saves, the last log is held. -/
theorem Keeps.held (h : m.Keeps) : (∃ s, m.phase = .saving s) ∨ m.Held := by
  obtain ⟨log, previous, phase, left⟩ := m
  cases phase with
  | off => exact .inr h
  | keeping copy => exact .inr h.1
  | storing copy => exact .inr (.inl h.1)
  | copying copy done => exact .inr (.inl h.1)
  | opening => exact .inr h.1
  | saving s => exact .inl ⟨s, rfl⟩

/-- From any two files on, over any boots and whatever the machine is stopped in: if no call of the
copying fails, the last log that was left behind is in `/kernel.log` still or its beginning is in
`/previous.log`, and there it is as soon as the program saves. If calls fail too, `/previous.log` is
what it was at first or the beginning of one of the logs that were left behind. -/
theorem previous_kept (log previous : Option (List Byte)) (events : List Event) :
    let m := events.foldl step (start log previous)
    (Along step Works (start log previous) events →
      (m.log = some m.last ∨ m.Kept) ∧ ∀ s, m.phase = .saving s → m.Kept) ∧
      m.OneLog previous := by
  intro m
  refine ⟨fun hworks => ?_, ?_⟩
  · have hkeeps : m.Keeps := foldl_of_invariant Keeps
      (fun _ _ h hworks => step_keeps h hworks) (start_held log previous) hworks
    refine ⟨?_, fun s hphase => (hkeeps.saving hphase).2⟩
    rcases hkeeps.held with ⟨s, hphase⟩ | hheld
    · exact .inr (hkeeps.saving hphase).2
    · exact hheld.imp_right And.right
  · have hany : Along step (fun _ _ => True) (start log previous) events :=
      along_iff.2 fun _ _ _ _ => trivial
    have hsound : m.Sound previous := foldl_of_invariant (Sound previous)
      (fun _ event h _ => step_sound h event) (start_sound log previous) hany
    exact hsound.oneLog

/-- The machine stops while the log is read; then the copying is done, in two pieces. -/
def twoBoots : List Event :=
  [.answer 3, .answer 2, .stop, .answer 3, .answer 9, .answer 0, .answer 4, .answer 2, .answer 5,
    .answer 3]

/-- Two boots, and the log of the first is kept. -/
theorem previous_kept_twoBoots :
    (twoBoots.foldl step (start (some (bytesOf "old")) none)).Kept := by
  refine ((previous_kept (some (bytesOf "old")) none twoBoots).1 ?_).2 ⟨[], []⟩ rfl
  exact ⟨.inr (by decide), .inl (by decide), trivial, .inr (by decide), .inl (by decide),
    .inr (by decide), show (4 : ℤ) ≠ fail by decide, show (0 : ℤ) < 2 by decide,
    show (0 : ℤ) < 5 by decide, trivial, trivial⟩

end Machine

end IUserApps.LogSaver
