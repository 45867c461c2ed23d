import IUserApps.NsLookup.Names

/-!
# The walk over a DNS response

What `main` of `nslookup.c` does with a response: it skips the questions and prints the answers, each
by `print_record`. Counts, lengths and pointers are the response's own. `walk_safe` says that whatever
they are no byte outside the response is read and none outside a name buffer is written; that the
walk ends is that these are functions: a name's reads go up between its pointers, of which it follows
32 at most.

What is printed is the data of each line; the two styles of output differ in their texts alone, but
for an alias, which `host` prints once.
-/

namespace IUserApps.NsLookup

open Checked

/-- An address. -/
def T_A : ℕ := 1
/-- A name server. -/
def T_NS : ℕ := 2
/-- An alias. -/
def T_CNAME : ℕ := 5
/-- The start of a zone. -/
def T_SOA : ℕ := 6
/-- A name for an address. -/
def T_PTR : ℕ := 12
/-- A mail server. -/
def T_MX : ℕ := 15
/-- Texts. -/
def T_TXT : ℕ := 16
/-- An address of version 6. -/
def T_AAAA : ℕ := 28

/-- The size of the buffers for names, `owner`, `name` and `mail`. -/
def nameCapacity : ℕ := 512

/-- A line of the output. -/
inductive Printed
  | answerHeader (authoritative : Bool)
  | address (owner ip : List Byte)
  | address6 (owner ip : List Byte)
  | canonicalName (owner name : List Byte)
  | nameServer (owner name : List Byte)
  | domainPointer (owner name : List Byte)
  | mail (owner : List Byte) (pref : ℕ) (name : List Byte)
  | text (owner : List Byte) (parts : List (List Byte))
  | soa (owner name mail : List Byte) (serial : ℕ)
  | unknown (owner : List Byte) (type rdlen : ℕ)
deriving DecidableEq, Repr

/-- A number of two octets. -/
def read16 (m : List Byte) (i : ℕ) : Access ℕ := do
  let high ← readAt m i
  let low ← readAt m (i + 1)
  .ok ((high.toNat <<< 8) ||| low.toNat)

/-- A number of four octets. -/
def read32 (m : List Byte) (i : ℕ) : Access ℕ := do
  let a ← readAt m i
  let b ← readAt m (i + 1)
  let c ← readAt m (i + 2)
  let d ← readAt m (i + 3)
  .ok ((a.toNat <<< 24) ||| (b.toNat <<< 16) ||| (c.toNat <<< 8) ||| d.toNat)

/-- The strings of a `TXT` record up to its end, each printed up to a NUL. -/
def textParts (m : List Byte) (recordEnd q : ℕ) : Access (List (List Byte)) :=
  if _hq : q < recordEnd then do
    let l ← readAt m q
    if recordEnd < q + 1 + l.toNat then .ok []
    else
      let part ← readMany m (q + 1) l.toNat
      let rest ← textParts m recordEnd (q + 1 + l.toNat)
      .ok (part.takeWhile (fun b => b ≠ 0) :: rest)
  else .ok []
termination_by recordEnd - q

/-- A record whose data is a name. -/
def printName (m : List Byte) (off : ℕ) (line : List Byte → Printed) : Access (Option Printed) := do
  match ← getName m off nameCapacity with
  | none => .ok none
  | some (_, name) => .ok (some (line name))

/-- Prints one answer record; `none` if it was not printed. -/
def printRecord (m : List Byte) (off type rdlen : ℕ) (owner : List Byte) :
    Access (Option Printed) :=
  if type = T_A then
    if rdlen ≠ 4 then .ok none
    else do
      let ip ← readMany m off 4
      .ok (some (.address owner ip))
  else if type = T_AAAA then
    if rdlen ≠ 16 then .ok none
    else do
      let ip ← readMany m off 16
      .ok (some (.address6 owner ip))
  else if type = T_CNAME then printName m off (.canonicalName owner)
  else if type = T_NS then printName m off (.nameServer owner)
  else if type = T_PTR then printName m off (.domainPointer owner)
  else if type = T_MX then
    if rdlen < 3 then .ok none
    else do
      let pref ← read16 m off
      printName m (off + 2) (.mail owner pref)
  else if type = T_TXT then do
    let parts ← textParts m (off + rdlen) off
    .ok (some (.text owner parts))
  else if type = T_SOA then do
    match ← getName m off nameCapacity with
    | none => .ok none
    | some (p, name) =>
      -- The mailbox's name starts where the server's name ends.
      match ← getName m p nameCapacity with
      | none => .ok none
      | some (p, mail) =>
        if m.length < p + 20 then .ok none
        else do
          let serial ← read32 m p
          .ok (some (.soa owner name mail serial))
  else .ok (some (.unknown owner type rdlen))

/-- Prints an answer; `host` prints an alias with the first of its lookups only. -/
def printAnswer (m : List Byte) (aliases : Bool) (off type rdlen : ℕ) (owner : List Byte) :
    Access (Option Printed) :=
  if type = T_CNAME ∧ aliases = false then .ok none else printRecord m off type rdlen owner

/-- Skips a number of questions; `none` if one cannot be read. -/
def skipQuestions (m : List Byte) : ℕ → ℕ → Access (Option ℕ)
  | 0, off => .ok (some off)
  | n + 1, off => do
    match ← getName m off nameCapacity with
    | none => .ok none
    | some (off, _) => skipQuestions m n (off + 4)

/-- Prints a number of answers after what has been printed; whether all could be read. -/
def printAnswers (m : List Byte) (aliases : Bool) : ℕ → ℕ → List Printed →
    Access (List Printed × Bool)
  | 0, _, printed => .ok (printed, true)
  | n + 1, off, printed => do
    match ← getName m off nameCapacity with
    | none => .ok (printed, false)
    | some (off, owner) =>
      if m.length < off + 10 then .ok (printed, false)
      else do
        let rtype ← read16 m off
        let rdlen ← read16 m (off + 8)
        let off := off + 10
        if m.length < off + rdlen then .ok (printed, false)
        else do
          let record ← printAnswer m aliases off rtype rdlen owner
          printAnswers m aliases n (off + rdlen) (printed ++ record.toList)

/-- The walk of lookup `t`: what it prints, and whether it came to the end of the answers. -/
def walk (m : List Byte) (hostStyle : Bool) (header : Bool) (t : ℕ) :
    Access (List Printed × Bool) := do
  let qd ← read16 m 4
  let an ← read16 m 6
  match ← skipQuestions m qd 12 with
  | none => .ok ([], false)
  | some off =>
    if !hostStyle && !header && decide (0 < an) then do
      let flags ← readAt m 2
      printAnswers m true an off [.answerHeader (flags &&& 0x04 ≠ 0)]
    else printAnswers m (!(hostStyle && decide (0 < t))) an off []

/-! ## Every access is inside -/

/-- Nothing is asked of the result. -/
def anyResult {α : Type} (_ : α) : Prop := True

/-- Two bytes that are in the message are read. -/
theorem read16_safe {m : List Byte} {i : ℕ} (h : i + 2 ≤ m.length) :
    Safe (read16 m i) anyResult := by
  refine (readAt_safe (by omega)).bind fun high _ => ?_
  refine (readAt_safe (by omega)).bind fun low _ => ?_
  exact safe_ok trivial

/-- Four bytes that are in the message are read. -/
theorem read32_safe {m : List Byte} {i : ℕ} (h : i + 4 ≤ m.length) :
    Safe (read32 m i) anyResult := by
  refine (readAt_safe (by omega)).bind fun a _ => ?_
  refine (readAt_safe (by omega)).bind fun b _ => ?_
  refine (readAt_safe (by omega)).bind fun c _ => ?_
  refine (readAt_safe (by omega)).bind fun d _ => ?_
  exact safe_ok trivial

/-- A name of the message is read into a buffer for names. -/
theorem getName_nameCapacity (m : List Byte) (off : ℕ) :
    Safe (getName m off nameCapacity) (NameInside m nameCapacity) := getName_safe m off (by decide)

/-- The strings of a `TXT` record in the message are inside. -/
theorem textParts_safe {m : List Byte} {recordEnd : ℕ} (h : recordEnd ≤ m.length) (q : ℕ) :
    Safe (textParts m recordEnd q) anyResult := by
  induction q using textParts.induct recordEnd with
  | case1 q hq ih =>
    rw [textParts, dif_pos hq]
    refine (readAt_safe (by omega)).bind fun l _ => ?_
    split
    · exact safe_ok trivial
    · next hl =>
      have hpart : q + 1 + l.toNat ≤ m.length := by omega
      refine (readMany_safe hpart).bind fun part _ => ?_
      refine (ih l hl).bind fun rest _ => ?_
      exact safe_ok trivial
  | case2 q hq =>
    rw [textParts, dif_neg hq]
    exact safe_ok trivial

/-- A record that holds a name is printed from inside the message. -/
theorem printName_safe (m : List Byte) (off : ℕ) (line : List Byte → Printed) :
    Safe (printName m off line) anyResult := by
  refine (getName_nameCapacity m off).bind fun r _ => ?_
  cases r with
  | none => exact safe_ok trivial
  | some r => exact safe_ok trivial

/-- A record whose data is in the message is printed from it. -/
theorem printRecord_safe {m : List Byte} {off rdlen : ℕ} (h : off + rdlen ≤ m.length) (type : ℕ)
    (owner : List Byte) : Safe (printRecord m off type rdlen owner) anyResult := by
  unfold printRecord
  -- The types in the order of the source; each checks its own length before it reads.
  by_cases hA : type = T_A
  · rw [if_pos hA]
    split
    · exact safe_ok trivial
    · -- The length has been checked to be four.
      next hlen =>
      have hread : off + 4 ≤ m.length := by omega
      exact (readMany_safe hread).bind fun ip _ => safe_ok trivial
  rw [if_neg hA]
  by_cases hAAAA : type = T_AAAA
  · rw [if_pos hAAAA]
    split
    · exact safe_ok trivial
    · next hlen =>
      have hread : off + 16 ≤ m.length := by omega
      exact (readMany_safe hread).bind fun ip _ => safe_ok trivial
  rw [if_neg hAAAA]
  -- A name may go on outside the record, but not outside the message.
  by_cases hCNAME : type = T_CNAME
  · rw [if_pos hCNAME]
    exact printName_safe m off _
  rw [if_neg hCNAME]
  by_cases hNS : type = T_NS
  · rw [if_pos hNS]
    exact printName_safe m off _
  rw [if_neg hNS]
  by_cases hPTR : type = T_PTR
  · rw [if_pos hPTR]
    exact printName_safe m off _
  rw [if_neg hPTR]
  by_cases hMX : type = T_MX
  · rw [if_pos hMX]
    split
    · exact safe_ok trivial
    · -- The preference comes before the name.
      refine (read16_safe (by omega)).bind fun pref _ => ?_
      exact printName_safe m (off + 2) _
  rw [if_neg hMX]
  by_cases hTXT : type = T_TXT
  · rw [if_pos hTXT]
    exact (textParts_safe h off).bind fun parts _ => safe_ok trivial
  rw [if_neg hTXT]
  by_cases hSOA : type = T_SOA
  · -- The second name starts where the first one ends, which may be outside the record.
    rw [if_pos hSOA]
    refine (getName_nameCapacity m off).bind fun r _ => ?_
    cases r with
    | none => exact safe_ok trivial
    | some r =>
      refine (getName_nameCapacity m r.1).bind fun r' _ => ?_
      cases r' with
      | none => exact safe_ok trivial
      | some r' =>
        simp only
        split
        · exact safe_ok trivial
        · -- The serial number is read where the names end, which is checked.
          have hread : r'.1 + 4 ≤ m.length := by omega
          exact (read32_safe hread).bind fun serial _ => safe_ok trivial
  rw [if_neg hSOA]
  exact safe_ok trivial

/-- A record whose data lies in the message is printed from inside it. -/
theorem printAnswer_safe {m : List Byte} {off rdlen : ℕ} (h : off + rdlen ≤ m.length)
    (aliases : Bool) (type : ℕ) (owner : List Byte) :
    Safe (printAnswer m aliases off type rdlen owner) anyResult := by
  unfold printAnswer
  split
  · exact safe_ok trivial
  · exact printRecord_safe h type owner

/-- Questions are skipped from any offset, also one behind the end. -/
theorem skipQuestions_safe (m : List Byte) (n off : ℕ) :
    Safe (skipQuestions m n off) anyResult := by
  induction n generalizing off with
  | zero => exact safe_ok trivial
  | succ n ih =>
    unfold skipQuestions
    refine (getName_nameCapacity m off).bind fun r _ => ?_
    cases r with
    | none => exact safe_ok trivial
    | some r => exact ih (r.1 + 4)

/-- Answers are printed from any offset. -/
theorem printAnswers_safe (m : List Byte) (aliases : Bool) (n off : ℕ) (printed : List Printed) :
    Safe (printAnswers m aliases n off printed) anyResult := by
  induction n generalizing off printed with
  | zero => exact safe_ok trivial
  | succ n ih =>
    unfold printAnswers
    refine (getName_nameCapacity m off).bind fun r _ => ?_
    cases r with
    | none => exact safe_ok trivial
    | some r =>
      simp only
      split
      · exact safe_ok trivial
      · refine (read16_safe (by omega)).bind fun rtype _ => ?_
        refine (read16_safe (by omega)).bind fun rdlen _ => ?_
        split
        · exact safe_ok trivial
        · refine (printAnswer_safe (by omega) aliases rtype r.2).bind fun record _ => ?_
          exact ih _ _

/-- The walk over a response of 12 octets or more ends without a read outside the response or a write
outside a buffer for names. -/
theorem walk_safe {m : List Byte} (hlen : 12 ≤ m.length) (hostStyle header : Bool) (t : ℕ) :
    ∃ result, walk m hostStyle header t = .ok result := by
  suffices hsafe : Safe (walk m hostStyle header t) anyResult by
    obtain ⟨result, hresult, -⟩ := hsafe
    exact ⟨result, hresult⟩
  refine (read16_safe (by omega)).bind fun qd _ => ?_
  refine (read16_safe (by omega)).bind fun an _ => ?_
  refine (skipQuestions_safe m qd 12).bind fun r _ => ?_
  cases r with
  | none => exact safe_ok trivial
  | some off =>
    simp only
    split
    · refine (readAt_safe (by omega)).bind fun flags _ => ?_
      exact printAnswers_safe m true an off _
    · exact printAnswers_safe m _ an off []

/-- A response whose one answer is owned by a pointer to itself. -/
def selfPointer : List Byte := [0, 0, 0x81, 0x80, 0, 0, 0, 1, 0, 0, 0, 0, 0xC0, 0x0C]

/-- A message whose name points to itself is walked through. -/
theorem walk_safe_selfPointer : ∃ result, walk selfPointer true false 0 = .ok result :=
  walk_safe (by decide) true false 0

end IUserApps.NsLookup
