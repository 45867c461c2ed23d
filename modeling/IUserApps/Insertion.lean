import IUserApps.Loops
import Mathlib.Data.List.DropRight
import Mathlib.Data.List.Sort

/-!
# Insertion by shifting

Insertion into an array from its end: elements that the new one comes before move up by a place,
until it fits (`shiftIn`). On lists it is put in front of the run at the end that it comes before
(`insertBehind`). A list built so from another is `Arranged`: it has the same elements, in order, and
those that tie in the order they had (`arranged_sorted`). Cut to `k` elements at every step, the
insertions keep the `k` least (`foldl_insertBehind_take`).
-/

namespace IUserApps.Insertion

variable {α : Type*} (before : α → α → Bool)

/-! ## Arrays -/

/-- Puts `x` in at a place, or further down, but not below `lo`: the elements that it comes before
move up by a place. -/
def shiftIn (lo : ℕ) (x : α) : ℕ → (ℕ → α) → ℕ → α
  | 0, a => Function.update a 0 x
  | i + 1, a =>
    if lo < i + 1 ∧ before x (a i) = true then shiftIn lo x i (Function.update a (i + 1) (a i))
    else Function.update a (i + 1) x

/-- `n` elements of an array from `lo` on. -/
def slice (a : ℕ → α) (lo n : ℕ) : List α := (List.range' lo n).map a

/-- `x` in a list, in front of the run at its end that `x` comes before. -/
def insertBehind (x : α) (l : List α) : List α :=
  l.rdropWhile (before x) ++ x :: l.rtakeWhile (before x)

section

variable {before}

/-- A slice has as many elements as it is asked for. -/
@[simp] theorem length_slice (a : ℕ → α) (lo n : ℕ) : (slice a lo n).length = n := by
  unfold slice
  rw [List.length_map, List.length_range']

/-- A longer slice has the next element behind. -/
theorem slice_succ (a : ℕ → α) (lo n : ℕ) : slice a lo (n + 1) = slice a lo n ++ [a (lo + n)] := by
  unfold slice
  rw [List.range'_concat, List.map_append, Nat.one_mul]
  rfl

/-- A slice depends only on its own places. -/
theorem slice_congr {a b : ℕ → α} {lo n : ℕ} (h : ∀ i, lo ≤ i → i < lo + n → a i = b i) :
    slice a lo n = slice b lo n := by
  refine List.map_congr_left fun i hi => ?_
  obtain ⟨hle, hlt⟩ := List.mem_range'_1.1 hi
  exact h i hle hlt

/-- The elements of a slice are the array's from its start on. -/
theorem getElem?_slice (a : ℕ → α) (lo : ℕ) {n i : ℕ} (h : i < n) :
    (slice a lo n)[i]? = some (a (lo + i)) := by
  unfold slice
  rw [List.getElem?_map, List.getElem?_range' h, Nat.one_mul]
  rfl

/-- A slice begins with every shorter one. -/
theorem take_slice (a : ℕ → α) (lo : ℕ) {m n : ℕ} (h : m ≤ n) :
    (slice a lo n).take m = slice a lo m := by
  unfold slice
  rw [← List.map_take, List.take_range'_of_length_ge h]

/-- An element is inserted into nothing. -/
theorem insertBehind_nil (x : α) : insertBehind before x [] = [x] := by simp [insertBehind]

/-- An element that comes before the last is inserted in front of it. -/
theorem insertBehind_concat_pos {x y : α} (h : before x y = true) (l : List α) :
    insertBehind before x (l ++ [y]) = insertBehind before x l ++ [y] := by
  unfold insertBehind
  rw [List.rdropWhile_concat_pos _ _ _ h, List.rtakeWhile_concat_pos _ _ _ h, List.append_assoc,
    List.cons_append]

/-- An element that does not come before the last is added behind it. -/
theorem insertBehind_concat_neg {x y : α} (h : ¬before x y = true) (l : List α) :
    insertBehind before x (l ++ [y]) = l ++ [y] ++ [x] := by
  unfold insertBehind
  rw [List.rdropWhile_concat_neg _ _ _ h, List.rtakeWhile_concat_neg _ _ _ h]

/-- Insertion where the elements stand for others that compare the same. -/
theorem map_insertBehind {β : Type*} {before' : β → β → Bool} (f : α → β) {x : α} {l : List α}
    (h : ∀ y, before x y = before' (f x) (f y)) :
    (insertBehind before x l).map f = insertBehind before' (f x) (l.map f) := by
  induction l using List.reverseRecOn with
  | nil => rfl
  | append_singleton l y ih =>
    rw [List.map_append, List.map_singleton]
    by_cases hx : before x y = true
    · rw [insertBehind_concat_pos hx, List.map_append, ih, List.map_singleton,
        insertBehind_concat_pos (by rwa [← h y])]
    · rw [insertBehind_concat_neg hx, insertBehind_concat_neg (by rwa [← h y]), List.map_append,
        List.map_append, List.map_singleton, List.map_singleton]

/-- What comes before no element goes to the end. -/
theorem insertBehind_of_not_before {x : α} {l : List α} (h : ∀ y ∈ l, before x y = false) :
    insertBehind before x l = l ++ [x] := by
  rcases List.eq_nil_or_concat' l with rfl | ⟨init, y, rfl⟩
  · exact insertBehind_nil x
  · refine insertBehind_concat_neg ?_ init
    rw [h y (List.mem_append_right _ (List.mem_singleton_self y))]
    exact Bool.false_ne_true

/-- Places that are not between `lo` and the one given keep their elements. -/
theorem shiftIn_of_outside (x : α) {lo n i : ℕ} (h : i < lo ∨ lo + n < i) (a : ℕ → α) :
    shiftIn before lo x (lo + n) a i = a i := by
  induction n generalizing a with
  | zero =>
    have hne : i ≠ lo := by omega
    cases lo with
    | zero => exact Function.update_of_ne hne _ _
    | succ lo =>
      unfold shiftIn
      rw [if_neg fun hlo => absurd hlo.1 (Nat.lt_irrefl _)]
      exact Function.update_of_ne hne _ _
  | succ n ih =>
    have hne : i ≠ lo + n + 1 := by omega
    rw [← Nat.add_assoc, shiftIn]
    split
    · rw [ih (by omega), Function.update_of_ne hne]
    · exact Function.update_of_ne hne _ _

/-- The elements from `lo` on are those of the list insertion. -/
theorem slice_shiftIn (x : α) (lo n : ℕ) (a : ℕ → α) :
    slice (shiftIn before lo x (lo + n) a) lo (n + 1) = insertBehind before x (slice a lo n) := by
  induction n generalizing a with
  | zero =>
    have hplace : shiftIn before lo x lo a lo = x := by
      cases lo with
      | zero => exact Function.update_self _ _ _
      | succ lo =>
        unfold shiftIn
        rw [if_neg fun hlo => absurd hlo.1 (Nat.lt_irrefl _)]
        exact Function.update_self _ _ _
    calc slice (shiftIn before lo x lo a) lo 1
        = [shiftIn before lo x lo a lo] := rfl
      _ = [x] := by rw [hplace]
      _ = insertBehind before x [] := (insertBehind_nil x).symm
  | succ n ih =>
    rw [slice_succ _ lo (n + 1), slice_succ a lo n, ← Nat.add_assoc, shiftIn]
    by_cases hx : before x (a (lo + n)) = true
    · -- The last element moves up, and the insertion goes on below it.
      rw [if_pos ⟨by omega, hx⟩, ih, insertBehind_concat_pos hx,
        shiftIn_of_outside x (Or.inr (Nat.lt_succ_self _)), Function.update_self]
      congr 2
      exact slice_congr fun i _ hi => Function.update_of_ne (by omega) _ _
    · rw [if_neg fun h => hx h.2, insertBehind_concat_neg hx, Function.update_self, slice_succ]
      congr 2
      · exact slice_congr fun i _ hi => Function.update_of_ne (by omega) _ _
      · rw [Function.update_of_ne (by omega)]

/-- Inserting adds one element. -/
theorem perm_insertBehind (x : α) (l : List α) : (insertBehind before x l).Perm (l ++ [x]) := by
  unfold insertBehind
  have hsplit : l.rdropWhile (before x) ++ l.rtakeWhile (before x) = l :=
    List.rdropWhile_append_rtakeWhile ..
  calc (l.rdropWhile (before x) ++ x :: l.rtakeWhile (before x)).Perm
        (x :: (l.rdropWhile (before x) ++ l.rtakeWhile (before x))) := List.perm_middle
    _ = x :: l := by rw [hsplit]
    List.Perm _ (l ++ [x]) := (List.perm_append_singleton x l).symm

end

/-! ## Order -/

/-- Neither comes before the other. -/
def ties (x y : α) : Bool := !before x y && !before y x

/-- A list put in order: the same elements, none before one that it comes after, and those that tie
in the order they had. -/
structure Arranged (l l' : List α) : Prop where
  perm : l'.Perm l
  ordered : l'.Pairwise fun x y => before y x = false
  stable : ∀ x, l'.filter (ties before x) = l.filter (ties before x)

/-- The list built by inserting the elements of another one after another. -/
def sorted (l : List α) : List α := l.foldl (fun l x => insertBehind before x l) []

/-- Nothing is in order. -/
theorem arranged_nil : Arranged before ([] : List α) [] :=
  ⟨List.Perm.refl _, List.Pairwise.nil, fun _ => rfl⟩

section

variable {before} [IsStrictWeakOrder α fun x y => before x y = true]

/-- Of two elements only one comes before the other. -/
theorem before_asymm {x y : α} (h : before x y = true) : before y x = false := by
  by_contra hyx
  rw [Bool.not_eq_false] at hyx
  exact irrefl_of (fun x y => before x y = true) x (trans_of (fun x y => before x y = true) h hyx)

/-- What does not come before an element does not come before an earlier one. -/
theorem not_before_trans {x y z : α} (hxy : before x y = false) (hyz : before y z = false) :
    before x z = false := by
  by_contra hxz
  rw [Bool.not_eq_false] at hxz
  have hyx : ¬before y x = true := by
    intro hyx
    have := trans_of (fun x y => before x y = true) hyx hxz
    rw [hyz] at this
    exact Bool.false_ne_true this
  have hzy : ¬before z y = true := by
    intro hzy
    have := trans_of (fun x y => before x y = true) hxz hzy
    rw [hxy] at this
    exact Bool.false_ne_true this
  -- So `x` and `y` tie, and `y` and `z` do.
  have hweak : IsStrictWeakOrder α fun x y => before x y = true := inferInstance
  have htie := hweak.incomp_trans x y z ⟨by simp [hxy], hyx⟩ ⟨by simp [hyz], hzy⟩
  exact htie.1 hxz

/-- What ties with an element does not tie with a later one. -/
theorem not_ties_of_before {x y z : α} (hx : ties before z x = true) (h : before x y = true) :
    ties before z y = false := by
  unfold ties at hx ⊢
  simp only [Bool.and_eq_true, Bool.not_eq_true'] at hx
  have hzy : before z y = true := by
    by_contra hnot
    have hxy := not_before_trans hx.2 (Bool.eq_false_iff.2 hnot)
    rw [h] at hxy
    exact absurd hxy (by decide)
  rw [hzy]
  rfl

/-- Inserting one more element keeps a list in order. -/
theorem Arranged.insert {l l' : List α} (h : Arranged before l l') (x : α) :
    Arranged before (l ++ [x]) (insertBehind before x l') := by
  have hsplit : l'.rdropWhile (before x) ++ l'.rtakeWhile (before x) = l' :=
    List.rdropWhile_append_rtakeWhile ..
  have hrun : ∀ y ∈ l'.rtakeWhile (before x), before x y = true := fun y => List.mem_rtakeWhile_imp
  have hordered := h.ordered
  rw [← hsplit, List.pairwise_append] at hordered
  obtain ⟨hkept, hrunOrdered, hcross⟩ := hordered
  -- The element in front of the run does not come after `x`, and neither do those in front of it.
  have hfront : ∀ z ∈ l'.rdropWhile (before x), before x z = false := by
    rcases List.eq_nil_or_concat' (l'.rdropWhile (before x)) with hnil | ⟨init, y, hconcat⟩
    · intro z hz
      rw [hnil] at hz
      exact absurd hz List.not_mem_nil
    · have hy : before x y = false := by
        have hlast := List.rdropWhile_last_not (before x) l' (by rw [hconcat]; simp)
        simpa [hconcat] using hlast
      rw [hconcat, List.pairwise_append] at hkept
      intro z hz
      rw [hconcat] at hz
      rcases List.mem_append.1 hz with hz | hz
      · exact not_before_trans hy (hkept.2.2 z hz y (List.mem_singleton_self y))
      · rw [List.mem_singleton.1 hz]
        exact hy
  refine ⟨(perm_insertBehind x l').trans (h.perm.append_right [x]), ?_, fun c => ?_⟩
  · refine List.pairwise_append.2 ⟨hkept, List.pairwise_cons.2 ⟨?_, hrunOrdered⟩, ?_⟩
    · exact fun y hy => before_asymm (hrun y hy)
    · intro z hz y hy
      rcases List.mem_cons.1 hy with rfl | hy
      · exact hfront z hz
      · exact hcross z hz y hy
  · unfold insertBehind
    rw [List.filter_append, List.filter_append, ← h.stable c]
    conv_rhs => rw [← hsplit]
    rw [List.filter_append, List.append_assoc]
    congr 1
    by_cases hx : ties before c x = true
    · have hnone : (l'.rtakeWhile (before x)).filter (ties before c) = [] := by
        rw [List.filter_eq_nil_iff]
        intro y hy
        rw [not_ties_of_before hx (hrun y hy)]
        exact Bool.false_ne_true
      rw [List.filter_cons_of_pos hx, hnone, List.nil_append, List.filter_cons_of_pos hx,
        List.filter_nil]
    · rw [List.filter_cons_of_neg hx, List.filter_cons_of_neg hx, List.filter_nil, List.append_nil]

/-- The insertions put a list in order. -/
theorem arranged_sorted (l : List α) : Arranged before l (sorted before l) := by
  induction l using List.reverseRecOn with
  | nil => exact arranged_nil before
  | append_singleton l x ih =>
    unfold sorted at ih ⊢
    rw [List.foldl_append]
    exact ih.insert x

/-! ## The least elements -/

/-- Elements beyond the first `k` do not matter for the first `k` of an insertion. -/
theorem insertBehind_take {l : List α} (h : l.Pairwise fun x y => before y x = false) (x : α)
    (k : ℕ) : (insertBehind before x (l.take k)).take k = (insertBehind before x l).take k := by
  induction l using List.reverseRecOn with
  | nil => rw [List.take_nil]
  | append_singleton l y ih =>
    by_cases hk : l.length < k
    · have hlength : (l ++ [y]).length ≤ k := by
        rw [List.length_append, List.length_singleton]
        omega
      rw [List.take_of_length_le hlength]
    · have hle : k ≤ l.length := Nat.le_of_not_lt hk
      rw [List.take_append_of_le_length hle]
      obtain ⟨hl, -, hlast⟩ := List.pairwise_append.1 h
      by_cases hx : before x y = true
      · have hlength : k ≤ (insertBehind before x l).length := by
          rw [(perm_insertBehind x l).length_eq, List.length_append]
          omega
        rw [ih hl, insertBehind_concat_pos hx, List.take_append_of_le_length hlength]
      · -- Then `x` comes before none of them.
        have hnone : ∀ z ∈ l.take k, before x z = false := fun z hz =>
          not_before_trans (Bool.eq_false_iff.2 hx)
            (hlast z (List.mem_of_mem_take hz) y (List.mem_singleton_self y))
        rw [insertBehind_of_not_before hnone, insertBehind_concat_neg hx, List.append_assoc,
          List.take_append_of_le_length (by rw [List.length_take_of_le hle]),
          List.take_append_of_le_length hle, List.take_take, Nat.min_self]

/-- Insertions into no more than `k` elements keep the `k` least. -/
theorem foldl_insertBehind_take (k : ℕ) (l : List α) :
    l.foldl (fun l x => (insertBehind before x l).take k) [] = (sorted before l).take k := by
  induction l using List.reverseRecOn with
  | nil => exact List.take_nil.symm
  | append_singleton l x ih =>
    unfold sorted
    rw [List.foldl_append, List.foldl_append, ih]
    exact insertBehind_take (arranged_sorted l).ordered x k

end

/-- Keys of a linear order compare as a strict weak order. -/
theorem weak_of_key {β : Type*} [LinearOrder β] (key : α → β) :
    IsStrictWeakOrder α fun x y => decide (key x < key y) = true := by
  simp only [decide_eq_true_eq]
  have hweak : IsStrictWeakOrder β fun x y => x < y := isStrictWeakOrder_of_isOrderConnected
  exact Order.Preimage.instIsStrictWeakOrder

/-- In a linear order, the list is sorted as such. -/
theorem sorted_lt [LinearOrder α] (l : List α) :
    sorted (fun x y => decide (x < y)) l = l.insertionSort (· ≤ ·) := by
  have hweak : IsStrictWeakOrder α fun x y => decide (x < y) = true := weak_of_key fun x : α => x
  obtain ⟨hperm, hordered, -⟩ := @arranged_sorted _ (fun x y => decide (x < y)) hweak l
  refine (hperm.trans (List.perm_insertionSort (· ≤ ·) l).symm).eq_of_pairwise
    (fun x y _ _ => le_antisymm) (hordered.imp ?_) (List.pairwise_insertionSort (· ≤ ·) l)
  intro x y hxy
  exact not_lt.1 (of_decide_eq_false hxy)

end IUserApps.Insertion
