import IUserApps.Words
import Mathlib.Data.List.Basic
import Mathlib.Data.List.TakeWhile

/-!
# Texts

Reading a text as a C program does: a line at a time with `fgets`, a word at a time, and numbers in
decimal; and printing numbers. Lines that fit the buffer are read as they were written, whatever
follows them (`lines_append`), and a number that was printed is the number that is read
(`scanInt_printInt`).
-/

namespace IUserApps.Texts

/-- The byte at the end of a line. -/
def newline : Byte := 10

/-- `isspace`. -/
def isSpace (b : Byte) : Bool := b == 32 || (decide (9 ≤ b.toNat) && decide (b.toNat ≤ 13))

/-- The bytes of a C string, up to its zero. -/
def cstr (text : List Byte) : List Byte := text.takeWhile (· ≠ 0)

/-- The text behind its leading white space. -/
def skipSpace (text : List Byte) : List Byte := text.dropWhile isSpace

/-- The first word, when there is no space before it. -/
def word (text : List Byte) : List Byte := text.takeWhile (!isSpace ·)

/-- `fgets` into a buffer of `n` bytes: the text up to its first newline, at most `n - 1` bytes of
it, and the rest. -/
def fgets (n : ℕ) (text : List Byte) : Option (List Byte × List Byte) :=
  if text = [] then none
  else
    let count := min ((text.takeWhile (· ≠ newline)).length + 1) (n - 1)
    some (text.take count, text.drop count)

/-- What `fgets` reads one call after another, at most `fuel` of them. -/
def linesFrom (n : ℕ) : ℕ → List Byte → List (List Byte)
  | 0, _ => []
  | fuel + 1, text => (fgets n text).elim [] fun read => read.1 :: linesFrom n fuel read.2

/-- What `fgets` reads of a text until its end. -/
def lines (n : ℕ) (text : List Byte) : List (List Byte) := linesFrom n text.length text

/-- The byte is a decimal digit. -/
def isDigit (b : Byte) : Bool := decide (48 ≤ b.toNat) && decide (b.toNat ≤ 57)

/-- The number that digits write. -/
def value (digits : List Byte) : ℕ := digits.foldl (fun v d => v * 10 + (d.toNat - 48)) 0

/-- `%d` of `printf`. -/
def printInt (z : ℤ) : List Byte := (if z < 0 then [45] else []) ++ ascii (Nat.repr z.natAbs)

/-- A sign. -/
def isSign (b : Byte) : Bool := b == 43 || b == 45

/-- `%d` of `scanf`: a number after spaces, and what follows it. -/
def scanInt (text : List Byte) : Option (ℤ × List Byte) :=
  let text := skipSpace text
  let number := if (text.head?.map isSign).getD false then text.tail else text
  let digits := number.takeWhile isDigit
  if digits = [] then none
  else
    some (if text.head? = some 45 then -(value digits : ℤ) else value digits,
      number.dropWhile isDigit)

/-! ## Words -/

section Words

variable {text rest : List Byte}

/-- A text that does not begin with a space. -/
theorem skipSpace_of_head (h : ∀ b ∈ text.head?, isSpace b = false) : skipSpace text = text := by
  cases text with
  | nil => rfl
  | cons b text => exact List.dropWhile_cons_of_neg (by simp [h b rfl])

/-- A text without a zero is a whole C string. -/
theorem cstr_eq (h : (0 : Byte) ∉ text) : cstr text = text :=
  List.takeWhile_eq_self_iff.2 fun _ hb => decide_eq_true fun heq => h (heq ▸ hb)

/-- Spaces, then a text. -/
theorem skipSpace_append (h : ∀ b ∈ text, isSpace b = true) :
    skipSpace (text ++ rest) = skipSpace rest := List.dropWhile_append_of_pos h

/-- What is taken while a test holds, and what is left, when the test fails next. -/
theorem span_append {p : Byte → Bool} (h : ∀ b ∈ text, p b = true)
    (hrest : ∀ b ∈ rest.head?, p b = false) :
    (text ++ rest).takeWhile p = text ∧ (text ++ rest).dropWhile p = rest := by
  rw [List.takeWhile_append_of_pos h, List.dropWhile_append_of_pos h]
  cases rest with
  | nil => exact ⟨List.append_nil _, rfl⟩
  | cons b rest =>
    have hb : ¬p b = true := by simp [hrest b rfl]
    rw [List.takeWhile_cons_of_neg hb, List.dropWhile_cons_of_neg hb]
    exact ⟨List.append_nil _, rfl⟩

/-- A word ends where a space comes. -/
theorem word_append (h : ∀ b ∈ text, isSpace b = false)
    (hrest : ∀ b ∈ rest.head?, isSpace b = true) :
    word (text ++ rest) = text ∧ (text ++ rest).dropWhile (!isSpace ·) = rest :=
  span_append (by simpa using h) fun b hb => by simp [hrest b hb]

end Words

/-! ## Lines -/

section Lines

variable {n : ℕ} {line rest : List Byte}

/-- A line that fits is read whole. -/
theorem fgets_line (h : newline ∉ line) (hn : line.length + 1 < n) (rest : List Byte) :
    fgets n (line ++ newline :: rest) = some (line ++ [newline], rest) := by
  have hpos : ∀ b ∈ line, decide (b ≠ newline) = true :=
    fun b hb => decide_eq_true fun heq => h (heq ▸ hb)
  have htake : (line ++ newline :: rest).takeWhile (· ≠ newline) = line := by
    rw [List.takeWhile_append_of_pos hpos, List.takeWhile_cons_of_neg (by simp), List.append_nil]
  have hsplit : line ++ newline :: rest = (line ++ [newline]) ++ rest := by simp
  have hlen : (line ++ [newline]).length = line.length + 1 := by simp
  unfold fgets
  rw [if_neg (by simp)]
  dsimp only
  rw [htake, Nat.min_eq_left (by omega), hsplit, ← hlen, List.take_left, List.drop_left]

/-- Each call takes something of the text. -/
theorem fgets_lt {read : List Byte × List Byte} {text : List Byte} (hn : 2 ≤ n)
    (h : fgets n text = some read) : read.2.length < text.length := by
  unfold fgets at h
  split at h
  · simp at h
  · next hne =>
    have hpos := List.length_pos_iff.2 hne
    rw [← Option.some.inj h, List.length_drop]
    omega

/-- As many calls as there are bytes are enough. -/
theorem linesFrom_eq (hn : 2 ≤ n) {fuel : ℕ} {text : List Byte} (h : text.length ≤ fuel) :
    linesFrom n fuel text = lines n text := by
  induction fuel using Nat.strong_induction_on generalizing text with
  | _ fuel ih =>
    unfold lines
    cases text with
    | nil =>
      cases fuel with
      | zero => rfl
      | succ fuel => rfl
    | cons b text =>
      obtain ⟨fuel, rfl⟩ : ∃ k, fuel = k + 1 := ⟨fuel - 1, by simp at h; omega⟩
      show (fgets n (b :: text)).elim [] _ = (fgets n (b :: text)).elim [] _
      cases hread : fgets n (b :: text) with
      | none => rfl
      | some read =>
        have hlt := fgets_lt hn hread
        simp only [List.length_cons] at h hlt
        show read.1 :: linesFrom n fuel read.2 = read.1 :: linesFrom n text.length read.2
        rw [ih fuel (by omega) (by omega), ih text.length (by omega) (by omega)]

/-- A line that fits is the first that is read. -/
theorem lines_line (h : newline ∉ line) (hn : line.length + 1 < n) (rest : List Byte) :
    lines n (line ++ newline :: rest) = (line ++ [newline]) :: lines n rest := by
  have hlen : (line ++ newline :: rest).length = (line.length + rest.length) + 1 := by
    rw [List.length_append, List.length_cons]
    rfl
  unfold lines
  rw [hlen]
  show (fgets n (line ++ newline :: rest)).elim [] _ = _
  rw [fgets_line h hn]
  exact congrArg _ (linesFrom_eq (by omega) (Nat.le_add_left _ _))

/-- Lines that fit are read as they were written, and then the rest. -/
theorem lines_append {ls : List (List Byte)} (h : ∀ l ∈ ls, newline ∉ l ∧ l.length + 1 < n)
    (rest : List Byte) : lines n (ls.flatMap (· ++ [newline]) ++ rest) =
      ls.map (· ++ [newline]) ++ lines n rest := by
  induction ls with
  | nil => rfl
  | cons l ls ih =>
    obtain ⟨hl, hls⟩ := List.forall_mem_cons.1 h
    rw [List.flatMap_cons, List.append_assoc, List.append_assoc, List.singleton_append,
      lines_line hl.1 hl.2, ih hls, List.map_cons, List.cons_append]

/-- A text that ends with a newline is lines. -/
theorem exists_lines (text : List Byte) (h : text = [] ∨ text.getLast? = some newline) :
    ∃ ls : List (List Byte), text = ls.flatMap (· ++ [newline]) ∧
      ∀ l ∈ ls, newline ∉ l ∧ l.length < text.length := by
  induction hlen : text.length using Nat.strong_induction_on generalizing text with
  | _ len ih =>
    rcases h with rfl | hlast
    · exact ⟨[], rfl, fun l hl => absurd hl List.not_mem_nil⟩
    · obtain ⟨first, rest, rfl, hfirst⟩ :=
        List.eq_append_cons_of_mem (List.mem_of_getLast? hlast)
      have hrest : rest = [] ∨ rest.getLast? = some newline := by
        rcases List.eq_nil_or_concat rest with rfl | ⟨init, b, rfl⟩
        · exact Or.inl rfl
        · right
          simpa [List.getLast?_append, List.getLast?_cons] using hlast
      simp only [List.length_append, List.length_cons] at hlen
      obtain ⟨ls, hls, hall⟩ := ih rest.length (by omega) rest hrest rfl
      refine ⟨first :: ls, ?_, List.forall_mem_cons.2 ⟨⟨hfirst, by omega⟩, fun l hl => ?_⟩⟩
      · conv_lhs => rw [hls]
        simp
      · obtain ⟨hnone, hlt⟩ := hall l hl
        exact ⟨hnone, by omega⟩

end Lines

/-! ## Numbers -/

/-- A digit as a byte. -/
theorem digit_byte {c : Char} (h : c.isDigit = true) :
    isDigit (BitVec.ofNat 8 c.toNat) = true ∧
      (BitVec.ofNat 8 c.toNat).toNat - 48 = c.toNat - '0'.toNat := by
  obtain ⟨hlo, hhi⟩ : 48 ≤ c.toNat ∧ c.toNat ≤ 57 := by
    simpa [Char.isDigit, UInt32.le_iff_toNat_le] using h
  have hbyte : (BitVec.ofNat 8 c.toNat).toNat = c.toNat := by
    rw [BitVec.toNat_ofNat]
    omega
  unfold isDigit
  rw [hbyte]
  exact ⟨by simp [hlo, hhi], rfl⟩

/-- A printed number has only digits. -/
theorem isDigit_repr (n : ℕ) : ∀ b ∈ ascii (Nat.repr n), isDigit b = true := by
  intro b hb
  obtain ⟨c, hc, rfl⟩ := List.mem_map.1 hb
  rw [Nat.toList_repr] at hc
  exact (digit_byte (Nat.isDigit_of_mem_toDigits (by decide) (by decide) hc)).1

/-- A printed number has a digit. -/
theorem repr_ne_nil (n : ℕ) : ascii (Nat.repr n) ≠ [] := by
  unfold ascii
  rw [Nat.toList_repr]
  simp [Nat.toDigits_ne_nil]

/-- The digits of a number say what it is. -/
theorem value_repr (n : ℕ) : value (ascii (Nat.repr n)) = n := by
  have hdigits : ∀ (cs : List Char) (v : ℕ), (∀ c ∈ cs, c.isDigit = true) →
      (cs.map fun c => BitVec.ofNat 8 c.toNat).foldl (fun v (d : Byte) => v * 10 + (d.toNat - 48)) v =
        Nat.ofDigitChars 10 cs v := by
    intro cs
    induction cs with
    | nil => exact fun _ _ => Nat.ofDigitChars_nil.symm
    | cons c cs ih =>
      intro v h
      obtain ⟨hc, hcs⟩ := List.forall_mem_cons.1 h
      rw [List.map_cons, List.foldl_cons, (digit_byte hc).2, ih _ hcs, Nat.ofDigitChars_cons,
        Nat.mul_comm]
  unfold value ascii
  rw [Nat.toList_repr, hdigits _ _ fun c => Nat.isDigit_of_mem_toDigits (by decide) (by decide)]
  exact Nat.ofDigitChars_ten_toDigits

/-- A digit is no space and no sign, and ends no text. -/
theorem isDigit_ne : ∀ {b : Byte}, isDigit b = true →
    isSpace b = false ∧ isSign b = false ∧ b ≠ newline ∧ b ≠ 0 := by decide +kernel

/-- A number that was printed is read, after spaces and up to what is no digit. -/
theorem scanInt_printInt (z : ℤ) {spaces rest : List Byte}
    (hspaces : ∀ b ∈ spaces, isSpace b = true) (hrest : ∀ b ∈ rest.head?, isDigit b = false) :
    scanInt (spaces ++ (printInt z ++ rest)) = some (z, rest) := by
  have hdigits := isDigit_repr z.natAbs
  obtain ⟨htake, hdrop⟩ := span_append hdigits hrest
  have hvalue := value_repr z.natAbs
  obtain ⟨b, bs, hcons⟩ := List.exists_cons_of_ne_nil (repr_ne_nil z.natAbs)
  unfold scanInt printInt
  rw [skipSpace_append hspaces]
  by_cases hz : z < 0
  · -- The sign comes first.
    rw [if_pos hz, List.append_assoc]
    have hskip : skipSpace ([45] ++ (ascii (Nat.repr z.natAbs) ++ rest)) =
        45 :: (ascii (Nat.repr z.natAbs) ++ rest) := rfl
    dsimp only
    rw [hskip]
    have hsign : ((45 :: (ascii (Nat.repr z.natAbs) ++ rest)).head?.map isSign).getD false = true :=
      rfl
    rw [if_pos hsign, List.tail_cons, htake, hdrop, if_neg (repr_ne_nil _), hvalue]
    have hneg : -(z.natAbs : ℤ) = z := by omega
    exact congrArg some (Prod.ext hneg rfl)
  · -- The first digit comes first.
    rw [hcons] at hdigits htake hdrop
    obtain ⟨hspace, hsign, -⟩ := isDigit_ne (hdigits b List.mem_cons_self)
    rw [if_neg hz, List.nil_append, hcons]
    have hskip : skipSpace (b :: bs ++ rest) = b :: bs ++ rest :=
      List.dropWhile_cons_of_neg (by simp [hspace])
    have hhead : ((b :: bs ++ rest).head?.map isSign).getD false = false := hsign
    have hminus : ¬(b :: bs ++ rest).head? = some 45 := by
      rintro h
      rw [Option.some.inj h] at hsign
      exact absurd hsign (by decide)
    dsimp only
    rw [hskip, hhead, if_neg Bool.false_ne_true, htake, hdrop, if_neg (List.cons_ne_nil b bs),
      if_neg hminus, ← hcons, hvalue]
    exact congrArg some (Prod.ext (by simp; omega) rfl)

end IUserApps.Texts
