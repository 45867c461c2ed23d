import IUserApps.FileBrowser.Paths
import IUserApps.Insertion
import Mathlib.Data.List.Lex
import Mathlib.Data.Prod.Lex

/-!
# The entries of a folder

What the file browser keeps of a folder's entries, and their order: folders first, then by name
ignoring ASCII case. `char` is signed, so a byte from `0x80` on comes before every other, and before
the NUL: a name comes after those that continue it with such a byte. That is still an order
(`entryBefore_weak`), and `sortEntries` puts the entries in it and keeps those that compare equal as
they were (`sortEntries_sorts`).
-/

namespace IUserApps.FileBrowser

open Insertion

/-- The type of a directory entry. -/
inductive FileType
  | regular | directory | charDevice | blockDevice | symlink | pipe | socket
deriving DecidableEq, Repr

/-- A directory entry of the kernel; its name up to the NUL. -/
structure DirEntry where
  name : Path
  type : FileType
  name_no_nul : (0 : Byte) ∉ name
deriving DecidableEq

/-- An entry of the folder, with what is shown of it. -/
structure BrowserEntry where
  dir : DirEntry
  executable : Bool
  size : ℕ
deriving DecidableEq

/-- An ASCII letter in lower case. -/
def asciiLower (c : Byte) : Byte :=
  if (0x41 : Byte).toInt ≤ c.toInt ∧ c.toInt ≤ (0x5a : Byte).toInt then c - 0x41 + 0x61 else c

/-- How two names compare from the places on where `lhs` and `rhs` begin. -/
def compareNames : Path → Path → ℤ
  | [], rhs =>
    let b := asciiLower (rhs.headD 0)
    if asciiLower 0 ≠ b then (if (asciiLower 0).toInt < b.toInt then -1 else 1) else 0
  | c :: lhs, rhs =>
    let a := asciiLower c
    let b := asciiLower (rhs.headD 0)
    if a ≠ b then (if a.toInt < b.toInt then -1 else 1)
    else if a = 0 then 0
    else compareNames lhs rhs.tail

/-- The entry is a folder. -/
def isDirectory (entry : BrowserEntry) : Bool := decide (entry.dir.type = .directory)

/-- Folders first, then by name ignoring case. -/
def entryBefore (lhs rhs : BrowserEntry) : Bool :=
  if isDirectory lhs ≠ isDirectory rhs then isDirectory lhs
  else decide (compareNames lhs.dir.name rhs.dir.name < 0)

/-- Sorts the first `count` entries by insertion. -/
def sortEntries (entries : ℕ → BrowserEntry) (count : ℕ) : ℕ → BrowserEntry :=
  Loops.upTo 1 count (fun i entries => shiftIn entryBefore 0 (entries i) i entries) entries

/-! ## Names -/

/-- A name as the numbers of its bytes in lower case, with the NUL. -/
def nameKey (name : Path) : List ℤ := name.map (fun c => (asciiLower c).toInt) ++ [0]

/-- No other byte becomes a NUL. -/
theorem asciiLower_ne_zero : ∀ c : Byte, c ≠ 0 → asciiLower c ≠ 0 := by decide

/-- The key of a name begins with its first byte's. -/
theorem nameKey_cons (c : Byte) (name : Path) :
    nameKey (c :: name) = (asciiLower c).toInt :: nameKey name := rfl

/-- The order of keys is decided at the first byte that differs. -/
theorem cons_lt_cons {a b : Byte} {l l' : List ℤ} :
    a.toInt :: l < b.toInt :: l' ↔ a.toInt < b.toInt ∨ a = b ∧ l < l' := by
  rw [List.cons_lt_cons_iff, BitVec.toInt_inj]

/-- The name that is less comes first. -/
theorem compareNames_neg {lhs rhs : Path} (hl : (0 : Byte) ∉ lhs) (hr : (0 : Byte) ∉ rhs) :
    compareNames lhs rhs < 0 ↔ nameKey lhs < nameKey rhs := by
  have hstep : ∀ a b : Byte, (if a.toInt < b.toInt then (-1 : ℤ) else 1) < 0 ↔
      a.toInt < b.toInt := by
    intro a b
    split
    · next h => exact iff_of_true (by decide) h
    · next h => exact iff_of_false (by decide) h
  -- By induction on the first name: the loop stops at the first difference or at its end.
  induction lhs generalizing rhs with
  | nil =>
    cases rhs with
    | nil => decide
    | cons d rhs =>
      have hd : asciiLower 0 ≠ asciiLower d := by
        have hne : d ≠ 0 := fun h => hr (h ▸ List.mem_cons_self)
        exact (asciiLower_ne_zero d hne).symm
      have hkey : nameKey [] = (asciiLower 0).toInt :: [] := rfl
      rw [hkey, nameKey_cons, cons_lt_cons]
      unfold compareNames
      dsimp only [List.headD_cons]
      rw [if_pos hd, hstep]
      exact (or_iff_left fun h => hd h.1).symm
  | cons c lhs ih =>
    have hc : asciiLower c ≠ 0 := by
      have hne : c ≠ 0 := fun h => hl (h ▸ List.mem_cons_self)
      exact asciiLower_ne_zero c hne
    cases rhs with
    | nil =>
      have hkey : nameKey [] = (asciiLower 0).toInt :: [] := rfl
      have hne : asciiLower c ≠ asciiLower 0 := hc
      rw [hkey, nameKey_cons, cons_lt_cons]
      unfold compareNames
      dsimp only [List.headD_nil]
      rw [if_pos hne, hstep]
      exact (or_iff_left fun h => hne h.1).symm
    | cons d rhs =>
      rw [nameKey_cons, nameKey_cons, cons_lt_cons]
      unfold compareNames
      dsimp only [List.headD_cons, List.tail_cons]
      by_cases hcd : asciiLower c = asciiLower d
      · -- Equal letters: the comparison goes on with what is behind them.
        have hrest := ih (fun h => hl (List.mem_cons_of_mem _ h))
          (fun h => hr (List.mem_cons_of_mem _ h))
        rw [if_neg (not_not.2 hcd), if_neg hc, hcd]
        exact hrest.trans (by simp)
      · rw [if_pos hcd, hstep]
        exact (or_iff_left fun h => hcd h.1).symm

/-! ## Entries -/

/-- The place of an entry in the order: its kind, folders first, and then its name. -/
def entryKey (entry : BrowserEntry) : Bool ×ₗ List ℤ :=
  toLex (!isDirectory entry, nameKey entry.dir.name)

/-- An entry comes first when its key is less. -/
theorem entryBefore_eq (lhs rhs : BrowserEntry) :
    entryBefore lhs rhs = decide (entryKey lhs < entryKey rhs) := by
  have hnames := compareNames_neg lhs.dir.name_no_nul rhs.dir.name_no_nul
  unfold entryBefore entryKey
  rw [Bool.eq_iff_iff, decide_eq_true_iff, Prod.Lex.toLex_lt_toLex]
  dsimp only
  rw [← hnames]
  cases isDirectory lhs <;> cases isDirectory rhs <;> simp

/-- The entries are compared as a strict weak order. -/
theorem entryBefore_weak : IsStrictWeakOrder BrowserEntry fun x y => entryBefore x y = true := by
  simp only [entryBefore_eq]
  exact weak_of_key entryKey

/-- `sortEntries` inserts the entries one after another. -/
theorem slice_sortEntries (entries : ℕ → BrowserEntry) (count : ℕ) :
    slice (sortEntries entries count) 0 count = sorted entryBefore (slice entries 0 count) ∧
      ∀ i, count ≤ i → sortEntries entries count i = entries i := by
  rcases Nat.eq_zero_or_pos count with rfl | hpos
  · exact ⟨rfl, fun _ _ => rfl⟩
  unfold sortEntries
  refine Loops.upTo_rule (fun k a => slice a 0 k = sorted entryBefore (slice entries 0 k) ∧
    ∀ i, k ≤ i → a i = entries i) hpos ⟨rfl, fun _ _ => rfl⟩ ?_
  rintro k a - - ⟨hslice, hrest⟩
  constructor
  · -- The entry that is moved is the next one of the original array.
    have hinsert := @slice_shiftIn _ entryBefore (a k) 0 k a
    rw [Nat.zero_add] at hinsert
    rw [hinsert, hslice, hrest k (Nat.le_refl k), slice_succ, Nat.zero_add]
    unfold sorted
    rw [List.foldl_append]
    rfl
  · intro i hi
    have houtside := @shiftIn_of_outside _ entryBefore (a k) 0 k i (Or.inr (by omega)) a
    rw [Nat.zero_add] at houtside
    rw [houtside]
    exact hrest i (by omega)

/-- Any entries and any number of them: sorting permutes them, puts every folder before every other
entry and, within each kind, the names in order ignoring case, and keeps entries that compare equal
as they were; the entries behind them stay. -/
theorem sortEntries_sorts (entries : ℕ → BrowserEntry) (count : ℕ) :
    let before := slice entries 0 count
    let after := slice (sortEntries entries count) 0 count
    after.Perm before ∧
      after.Pairwise (fun x y => isDirectory y = true → isDirectory x = true) ∧
      after.Pairwise (fun x y => isDirectory x = isDirectory y →
        nameKey x.dir.name ≤ nameKey y.dir.name) ∧
      (∀ x, after.filter (ties entryBefore x) = before.filter (ties entryBefore x)) ∧
      (∀ i, count ≤ i → sortEntries entries count i = entries i) ∧
      IsStrictWeakOrder BrowserEntry fun x y => entryBefore x y = true := by
  intro before after
  obtain ⟨hslice, hrest⟩ := slice_sortEntries entries count
  obtain ⟨hperm, hordered, hstable⟩ := @arranged_sorted _ _ entryBefore_weak before
  rw [← hslice] at hperm hordered hstable
  -- No entry comes before one that it stands behind.
  have hkeys : after.Pairwise fun x y => entryKey x ≤ entryKey y := by
    refine hordered.imp fun {x y} hxy => ?_
    rw [entryBefore_eq, decide_eq_false_iff_not] at hxy
    exact not_lt.1 hxy
  refine ⟨hperm, hkeys.imp fun {x y} hxy hdir => ?_, hkeys.imp fun {x y} hxy hkind => ?_, hstable,
    hrest, entryBefore_weak⟩
  · unfold entryKey at hxy
    rw [Prod.Lex.toLex_le_toLex, hdir] at hxy
    revert hxy
    cases isDirectory x <;> simp
  · unfold entryKey at hxy
    rw [Prod.Lex.toLex_le_toLex, hkind] at hxy
    simpa using hxy

end IUserApps.FileBrowser
