import Mathlib.Algebra.Order.BigOperators.Group.Finset
import IUserApps.Runs

/-!
# Tables of slots

A table of `n` slots, each free or with a key, that hands a free slot to a key that has none. When no
key has two slots, the table is full exactly when it holds `n` keys, and the keys of a list all get a
slot, one after another, exactly when they and those that the table holds are at most `n`
(`along_place_iff`).
-/

namespace IUserApps.Slots

open Runs

variable {κ : Type*} [DecidableEq κ] {n : ℕ} {key : ℕ → Option κ}

/-- The keys in the first `n` slots. -/
def held (n : ℕ) (key : ℕ → Option κ) : Finset κ :=
  (Finset.range n).biUnion fun k => (key k).toFinset

/-- No key has two slots. -/
def Distinct (n : ℕ) (key : ℕ → Option κ) : Prop :=
  ∀ j < n, ∀ k < n, ∀ id, key j = some id → key k = some id → j = k

/-- A key is held if one of the slots has it. -/
theorem mem_held {id : κ} : id ∈ held n key ↔ ∃ k < n, key k = some id := by
  unfold held
  rw [Finset.mem_biUnion]
  constructor
  · rintro ⟨k, hk, hid⟩
    exact ⟨k, Finset.mem_range.1 hk, Option.mem_toFinset.1 hid⟩
  · rintro ⟨k, hk, hid⟩
    exact ⟨k, Finset.mem_range.2 hk, Option.mem_toFinset.2 hid⟩

/-- A table whose slots are all free holds no key. -/
theorem held_eq_empty (h : ∀ k < n, key k = none) : held n key = ∅ := by
  apply Finset.eq_empty_of_forall_notMem
  intro id hid
  obtain ⟨k, hk, hkey⟩ := mem_held.1 hid
  rw [h k hk] at hkey
  cases hkey

omit [DecidableEq κ] in
/-- A slot holds one key at most. -/
theorem card_key_le (key : ℕ → Option κ) (k : ℕ) : (key k).toFinset.card ≤ 1 := by
  cases key k <;> simp

/-- A table holds no more keys than it has slots. -/
theorem card_held_le (n : ℕ) (key : ℕ → Option κ) : (held n key).card ≤ n := by
  have hle := Finset.card_biUnion_le_card_mul (Finset.range n) _ 1 fun k _ => card_key_le key k
  rwa [Finset.card_range, Nat.mul_one] at hle

/-- With a free slot, a table holds fewer keys than it has slots. -/
theorem card_held_lt {k : ℕ} (hk : k < n) (hfree : key k = none) : (held n key).card < n := by
  have hsub : held n key ⊆ ((Finset.range n).erase k).biUnion fun j => (key j).toFinset := by
    intro id hid
    obtain ⟨j, hj, hkey⟩ := mem_held.1 hid
    have hne : j ≠ k := by
      rintro rfl
      rw [hfree] at hkey
      cases hkey
    refine Finset.mem_biUnion.2 ⟨j, Finset.mem_erase.2 ⟨hne, Finset.mem_range.2 hj⟩, ?_⟩
    exact Option.mem_toFinset.2 hkey
  have hcard : ((Finset.range n).erase k).card = n - 1 := by
    rw [Finset.card_erase_of_mem (Finset.mem_range.2 hk), Finset.card_range]
  calc (held n key).card
      ≤ (((Finset.range n).erase k).biUnion fun j => (key j).toFinset).card :=
        Finset.card_le_card hsub
    _ ≤ ((Finset.range n).erase k).card * 1 :=
        Finset.card_biUnion_le_card_mul _ _ _ fun j _ => card_key_le key j
    _ < n := by omega

/-- A table without a free slot holds as many keys as it has slots. -/
theorem card_held_of_full (h : Distinct n key) (hfull : ∀ k < n, key k ≠ none) :
    (held n key).card = n := by
  have hle := card_held_le n key
  have hge : (Finset.range n).card ≤ ((held n key).map .some).card := by
    refine Finset.card_le_card_of_injOn key ?_ ?_
    · intro k hk
      obtain ⟨id, hid⟩ := Option.ne_none_iff_exists'.1 (hfull k (Finset.mem_range.1 hk))
      rw [hid]
      exact Finset.mem_map_of_mem _ (mem_held.2 ⟨k, Finset.mem_range.1 hk, hid⟩)
    · intro j hj k hk hjk
      have hj : j < n := Finset.mem_range.1 hj
      have hk : k < n := Finset.mem_range.1 hk
      obtain ⟨id, hid⟩ := Option.ne_none_iff_exists'.1 (hfull j hj)
      exact h j hj k hk id hid (hjk ▸ hid)
  rw [Finset.card_map, Finset.card_range] at hge
  omega

/-- A free slot that is taken adds its key. -/
theorem held_update {k : ℕ} (hk : k < n) (hfree : key k = none) (id : κ) :
    held n (Function.update key k (some id)) = insert id (held n key) := by
  ext x
  rw [Finset.mem_insert, mem_held, mem_held]
  constructor
  · rintro ⟨j, hj, hx⟩
    by_cases hjk : j = k
    · subst hjk
      rw [Function.update_self] at hx
      exact Or.inl (Option.some.inj hx).symm
    · rw [Function.update_of_ne hjk] at hx
      exact Or.inr ⟨j, hj, hx⟩
  · rintro (rfl | ⟨j, hj, hx⟩)
    · exact ⟨k, hk, Function.update_self _ _ _⟩
    · have hne : j ≠ k := by
        rintro rfl
        rw [hfree] at hx
        cases hx
      exact ⟨j, hj, by rw [Function.update_of_ne hne, hx]⟩

/-- A key that has no slot may take a free one. -/
theorem Distinct.update (h : Distinct n key) {id : κ} (hid : id ∉ held n key) (k : ℕ) :
    Distinct n (Function.update key k (some id)) := by
  have hne : ∀ j < n, key j ≠ some id := fun j hj hkey => hid (mem_held.2 ⟨j, hj, hkey⟩)
  intro i hi j hj x hx hx'
  by_cases hik : i = k
  · by_cases hjk : j = k
    · rw [hik, hjk]
    · rw [hik, Function.update_self] at hx
      rw [Function.update_of_ne hjk] at hx'
      exact absurd (hx'.trans hx.symm) (hne j hj)
  · rw [Function.update_of_ne hik] at hx
    by_cases hjk : j = k
    · rw [hjk, Function.update_self] at hx'
      exact absurd (hx.trans hx'.symm) (hne i hi)
    · rw [Function.update_of_ne hjk] at hx'
      exact h i hi j hj x hx hx'

/-! ## Keys one after another -/

/-- A key has a slot or finds one. -/
def Placed (n : ℕ) (keys : Finset κ) (id : κ) : Prop := id ∈ keys ∨ keys.card < n

instance (keys : Finset κ) (id : κ) : Decidable (Placed n keys id) :=
  inferInstanceAs (Decidable (_ ∨ _))

/-- The keys in a table after one more asks for a slot. -/
def place (n : ℕ) (keys : Finset κ) (id : κ) : Finset κ :=
  if Placed n keys id then insert id keys else keys

/-- All of a list of keys get a slot exactly when they fit the table with those that it holds. -/
theorem along_place_iff {keys : Finset κ} {ids : List κ} (h : keys.card ≤ n) :
    Along (place n) (Placed n) keys ids ↔ (keys ∪ ids.toFinset).card ≤ n := by
  induction ids generalizing keys with
  | nil =>
    rw [List.toFinset_nil, Finset.union_empty]
    exact iff_of_true trivial h
  | cons id ids ih =>
    have hunion : keys ∪ (id :: ids).toFinset = insert id keys ∪ ids.toFinset := by
      rw [List.toFinset_cons, Finset.insert_union, Finset.union_insert]
    rw [along_cons, hunion]
    by_cases hplaced : Placed n keys id
    · have hcard : (insert id keys).card ≤ n := by
        rcases hplaced with hmem | hlt
        · rw [Finset.insert_eq_of_mem hmem]
          exact h
        · have hle := Finset.card_insert_le id keys
          omega
      rw [place, if_pos hplaced, and_iff_right hplaced]
      exact ih hcard
    · refine iff_of_false (fun hall => hplaced hall.1) ?_
      unfold Placed at hplaced
      rw [not_or] at hplaced
      have hcard := Finset.card_insert_of_notMem hplaced.1
      have hsub : insert id keys ⊆ insert id keys ∪ ids.toFinset := Finset.subset_union_left
      have hle := Finset.card_le_card hsub
      omega

end IUserApps.Slots
