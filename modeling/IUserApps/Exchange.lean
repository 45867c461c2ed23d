import Mathlib.Data.List.Range
import Mathlib.Data.List.Perm.Basic
import Mathlib.Data.List.Nodup
import Mathlib.Logic.Equiv.Basic
import Mathlib.Tactic.Common

/-!
# Sorting by exchange

For each place of an array, the elements behind it are compared with the one that is there, and each
that comes before it is exchanged with it. For an order in which no two elements come before each
other and ties are transitive, the array is sorted then (`exchangeSort_sorted`), and its elements are
those it had (`exchangeSort_perm`).
-/

namespace IUserApps.Exchange

variable {α : Type*} (before : α → α → Bool)

/-- The array with two elements exchanged. -/
def exchange (a : ℕ → α) (i j : ℕ) : ℕ → α := a ∘ Equiv.swap i j

/-- Exchanges the element at `j` with the one at `i` if it comes before it. -/
def pass (i : ℕ) (a : ℕ → α) (j : ℕ) : ℕ → α :=
  if before (a j) (a i) then exchange a i j else a

/-- All elements from `i + 1` on. -/
def passes (n : ℕ) (a : ℕ → α) (i : ℕ) : ℕ → α :=
  (List.range' (i + 1) (n - (i + 1))).foldl (pass before i) a

/-- Sorts the first `n` elements. -/
def exchangeSort (n : ℕ) (a : ℕ → α) : ℕ → α := (List.range n).foldl (passes before n) a

variable {before} {n i j : ℕ} {a : ℕ → α}

/-! ## The elements -/

/-- Exchanging two elements keeps the elements. -/
theorem exchange_perm (a : ℕ → α) (hi : i < n) (hj : j < n) :
    ((List.range n).map (exchange a i j)).Perm ((List.range n).map a) := by
  have hswap : ((List.range n).map (Equiv.swap i j)).Perm (List.range n) := by
    refine (List.perm_ext_iff_of_nodup ?_ List.nodup_range).2 fun k => ?_
    · exact List.nodup_range.map (Equiv.swap i j).injective
    · rw [List.mem_map, List.mem_range]
      constructor
      · rintro ⟨k, hk, rfl⟩
        rw [List.mem_range] at hk
        rw [Equiv.swap_apply_def]
        split_ifs <;> assumption
      · intro hk
        refine ⟨Equiv.swap i j k, List.mem_range.2 ?_, Equiv.swap_apply_self i j k⟩
        rw [Equiv.swap_apply_def]
        split_ifs <;> assumption
  have hmap := hswap.map a
  rwa [List.map_map] at hmap

/-- A comparison keeps the elements. -/
theorem pass_perm (a : ℕ → α) (hi : i < n) (hj : j < n) :
    ((List.range n).map (pass before i a j)).Perm ((List.range n).map a) := by
  unfold pass
  split
  · exact exchange_perm a hi hj
  · exact .refl _

/-- A round keeps the elements. -/
theorem passes_perm (a : ℕ → α) (hi : i < n) :
    ((List.range n).map (passes before n a i)).Perm ((List.range n).map a) := by
  refine List.foldlRecOn (motive := fun b => ((List.range n).map b).Perm ((List.range n).map a)) _
    (pass before i) (.refl _) fun b hb j hj => ?_
  obtain ⟨-, hlt⟩ := List.mem_range'_1.1 hj
  exact (pass_perm b hi (by omega)).trans hb

/-- Sorting keeps the elements. -/
theorem exchangeSort_perm (n : ℕ) (a : ℕ → α) :
    ((List.range n).map (exchangeSort before n a)).Perm ((List.range n).map a) :=
  List.foldlRecOn (motive := fun b => ((List.range n).map b).Perm ((List.range n).map a)) _
    (passes before n) (.refl _) fun b hb _ hi =>
    (passes_perm b (List.mem_range.1 hi)).trans hb

/-- A round leaves what lies past the end. -/
theorem passes_of_le (a : ℕ → α) {k : ℕ} (hi : i < n) (hk : n ≤ k) :
    passes before n a i k = a k := by
  refine List.foldlRecOn (motive := fun b => b k = a k) _ (pass before i) rfl fun b hb j hj => ?_
  obtain ⟨-, hlt⟩ := List.mem_range'_1.1 hj
  unfold pass exchange
  split
  · rw [Function.comp_apply, Equiv.swap_apply_of_ne_of_ne (by omega) (by omega)]
    exact hb
  · exact hb

/-- The places behind the first `n` keep theirs. -/
theorem exchangeSort_of_le (n : ℕ) (a : ℕ → α) {k : ℕ} (hk : n ≤ k) :
    exchangeSort before n a k = a k :=
  List.foldlRecOn (motive := fun b => b k = a k) _ (passes before n) rfl fun b hb _ hi =>
    (passes_of_le b (List.mem_range.1 hi) hk).trans hb

/-! ## The order -/

/-- The elements of the places below `i` are in order, and none behind comes before them. -/
def SortedTo (before : α → α → Bool) (n i : ℕ) (a : ℕ → α) : Prop :=
  ∀ p q, p < i → p < q → q < n → before (a q) (a p) = false

/-- And no element below `j` comes before the one at `i`. -/
def LeastTo (before : α → α → Bool) (i j : ℕ) (a : ℕ → α) : Prop :=
  ∀ q, i < q → q < j → before (a q) (a i) = false

variable (hasymm : ∀ x y, before x y = true → before y x = false)
  (htrans : ∀ x y z, before y x = false → before z y = false → before z x = false)

include hasymm htrans

/-- A comparison keeps the sorted part, and the least of what has been compared at its place. -/
theorem pass_sorted (hij : i < j) (hj : j < n) (hsorted : SortedTo before n i a)
    (hleast : LeastTo before i j a) :
    SortedTo before n i (pass before i a j) ∧ LeastTo before i (j + 1) (pass before i a j) := by
  unfold pass
  split
  · next hbefore =>
    have hback := hasymm _ _ hbefore
    -- Both elements lie behind the places that are in order.
    refine ⟨fun p q hp hpq hq => ?_, fun q hiq hqj => ?_⟩
    · have hpfix : Equiv.swap i j p = p := Equiv.swap_apply_of_ne_of_ne (by omega) (by omega)
      unfold exchange
      rw [Function.comp_apply, Function.comp_apply, hpfix, Equiv.swap_apply_def]
      split_ifs
      · exact hsorted p j hp (by omega) hj
      · exact hsorted p i hp (by omega) (by omega)
      · exact hsorted p q hp hpq hq
    · unfold exchange
      rw [Function.comp_apply, Function.comp_apply, Equiv.swap_apply_left, Equiv.swap_apply_def]
      split_ifs with hqi hqj'
      · omega
      · exact hback
      · exact htrans _ _ _ hback (hleast q hiq (by omega))
  · next hnot =>
    refine ⟨hsorted, fun q hiq hqj => ?_⟩
    by_cases heq : q = j
    · rw [heq]
      exact Bool.eq_false_iff.2 hnot
    · exact hleast q hiq (by omega)

/-- A round makes the sorted part one longer. -/
theorem passes_sorted (hi : i < n) (hsorted : SortedTo before n i a) :
    SortedTo before n (i + 1) (passes before n a i) := by
  have hall : ∀ m j, j + m = n → i < j → ∀ a, SortedTo before n i a → LeastTo before i j a →
      SortedTo before n i ((List.range' j m).foldl (pass before i) a) ∧
        LeastTo before i n ((List.range' j m).foldl (pass before i) a) := by
    intro m
    induction m with
    | zero =>
      rintro j rfl - a hsorted hleast
      exact ⟨hsorted, hleast⟩
    | succ m ih =>
      intro j hm hij a hsorted hleast
      obtain ⟨hsorted', hleast'⟩ := pass_sorted hasymm htrans hij (by omega) hsorted hleast
      exact ih (j + 1) (by omega) (by omega) _ hsorted' hleast'
  obtain ⟨hsorted', hleast'⟩ := hall (n - (i + 1)) (i + 1) (by omega) (by omega) a hsorted
    (fun q hiq hqi => by omega)
  intro p q hp hpq hq
  by_cases heq : p = i
  · rw [heq]
    exact hleast' q (by omega) hq
  · exact hsorted' p q (by omega) hpq hq

/-- No element of the sorted array comes before one that is in front of it. -/
theorem exchangeSort_sorted (n : ℕ) (a : ℕ → α) :
    ((List.range n).map (exchangeSort before n a)).Pairwise fun x y => before y x = false := by
  have hall : ∀ m ≤ n, SortedTo before n m ((List.range m).foldl (passes before n) a) := by
    intro m
    induction m with
    | zero => exact fun _ p q hp => absurd hp (Nat.not_lt_zero p)
    | succ m ih =>
      intro hm
      rw [List.range_succ, List.foldl_append]
      exact passes_sorted hasymm htrans hm (ih (by omega))
  rw [List.pairwise_map]
  refine List.Pairwise.imp_of_mem ?_ List.pairwise_lt_range
  intro p q hp hq hpq
  exact hall n (Nat.le_refl n) p q (List.mem_range.1 hp) hpq (List.mem_range.1 hq)

end IUserApps.Exchange
