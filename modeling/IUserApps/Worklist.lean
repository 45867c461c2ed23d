import Mathlib.Data.List.Nodup
import Mathlib.Data.List.Perm.Subperm
import Mathlib.Data.Set.Basic
import Mathlib.Logic.Relation

/-!
# Worklists that grow while they are scanned

A list of nodes is scanned from its front, and the successors of each node that are not yet in the
list are added at its end: the list is its own queue, and the nodes come to stand in it breadth
first (`order`). It has no duplicates and holds only what can be reached (`order_reachable`), and
when the fuel is not below the number of nodes that can be reached it holds all of them
(`mem_order_iff`).
-/

namespace IUserApps.Worklist

variable {α : Type*} [DecidableEq α] {next : α → List α}

/-- Adds a node that is not yet in the list. -/
def add (seen : List α) (a : α) : List α := if a ∈ seen then seen else seen ++ [a]

/-- Scans the list from a place on, adding the successors of each node. -/
def scan (next : α → List α) : ℕ → ℕ → List α → List α
  | 0, _, seen => seen
  | fuel + 1, i, seen =>
    match seen[i]? with
    | none => seen
    | some a => scan next fuel (i + 1) ((next a).foldl add seen)

/-- The nodes found from a start, in the order of the list. -/
def order (next : α → List α) (start : α) (fuel : ℕ) : List α := scan next fuel 0 [start]

/-- The successors in the order in which the scan comes to them, with their repetitions. -/
def lookups (next : α → List α) : ℕ → ℕ → List α → List α
  | 0, _, _ => []
  | fuel + 1, i, seen =>
    match seen[i]? with
    | none => []
    | some a => next a ++ lookups next fuel (i + 1) ((next a).foldl add seen)

/-- A node is a successor of another. -/
def Edge (next : α → List α) (a b : α) : Prop := b ∈ next a

/-- A node can be reached from another. -/
def Reaches (next : α → List α) : α → α → Prop := Relation.ReflTransGen (Edge next)

/-! ## One step -/

/-- A list with an element added has it and the others. -/
theorem mem_add {seen : List α} {a b : α} : b ∈ add seen a ↔ b ∈ seen ∨ b = a := by
  unfold add
  split
  next h =>
    constructor
    · exact Or.inl
    · rintro (hb | rfl)
      · exact hb
      · exact h
  · rw [List.mem_append, List.mem_singleton]

/-- What is in the list stays at its place. -/
theorem prefix_add (seen : List α) (a : α) : seen <+: add seen a := by
  unfold add
  split
  · exact List.prefix_rfl
  · exact List.prefix_append _ _

/-- Adding an element makes none stand twice. -/
theorem nodup_add {seen : List α} (h : seen.Nodup) (a : α) : (add seen a).Nodup := by
  unfold add
  split
  · exact h
  next ha => exact List.nodup_append.2 ⟨h, List.nodup_singleton a, by
    intro b hb c hc hbc
    rw [List.mem_singleton.1 hc] at hbc
    exact ha (hbc ▸ hb)⟩

/-- A list with elements added has them and the others. -/
theorem mem_foldl_add {as seen : List α} {b : α} : b ∈ as.foldl add seen ↔ b ∈ seen ∨ b ∈ as := by
  induction as generalizing seen with
  | nil => simp
  | cons a as ih =>
    rw [List.foldl_cons, ih, mem_add, List.mem_cons, or_assoc]

/-- Elements are added behind those that are there. -/
theorem prefix_foldl_add (as seen : List α) : seen <+: as.foldl add seen := by
  induction as generalizing seen with
  | nil => exact List.prefix_rfl
  | cons a as ih => exact (prefix_add seen a).trans (ih _)

/-- Adding elements makes none stand twice. -/
theorem nodup_foldl_add {seen : List α} (h : seen.Nodup) (as : List α) :
    (as.foldl add seen).Nodup := by
  induction as generalizing seen with
  | nil => exact h
  | cons a as ih => exact ih (nodup_add h a)

/-! ## The scan -/

/-- A search adds elements behind those that are there. -/
theorem prefix_scan (next : α → List α) (fuel i : ℕ) (seen : List α) :
    seen <+: scan next fuel i seen := by
  induction fuel generalizing i seen with
  | zero => exact List.prefix_rfl
  | succ fuel ih =>
    unfold scan
    split
    · exact List.prefix_rfl
    · exact (prefix_foldl_add _ _).trans (ih _ _)

/-- A search finds no element twice. -/
theorem nodup_scan {seen : List α} (h : seen.Nodup) (fuel i : ℕ) :
    (scan next fuel i seen).Nodup := by
  induction fuel generalizing i seen with
  | zero => exact h
  | succ fuel ih =>
    unfold scan
    split
    · exact h
    · exact ih (nodup_foldl_add h _) _

/-- The scan adds only what can be reached. -/
theorem scan_reachable {start : α} {seen : List α} (h : ∀ a ∈ seen, Reaches next start a)
    (fuel i : ℕ) : ∀ a ∈ scan next fuel i seen, Reaches next start a := by
  induction fuel generalizing i seen with
  | zero => exact h
  | succ fuel ih =>
    unfold scan
    split
    · exact h
    next b hb =>
      refine ih ?_ _
      intro a ha
      rcases mem_foldl_add.1 ha with ha | ha
      · exact h a ha
      · exact (h b (List.mem_of_getElem? hb)).tail ha

/-- A scan that does not run out of fuel leaves a list that is closed. -/
theorem scan_closed {fuel i : ℕ} {seen : List α} (hdone : ∀ j < i, ∀ a, seen[j]? = some a →
    ∀ b ∈ next a, b ∈ seen) (hfuel : (scan next fuel i seen).length ≤ fuel + i) :
    ∀ a ∈ scan next fuel i seen, ∀ b ∈ next a, b ∈ scan next fuel i seen := by
  induction fuel generalizing i seen with
  | zero =>
    unfold scan at hfuel ⊢
    intro a ha b hb
    obtain ⟨j, hj, hget⟩ := List.mem_iff_getElem.1 ha
    exact hdone j (by omega) a (by rw [List.getElem?_eq_getElem hj, hget]) b hb
  | succ fuel ih =>
    unfold scan at hfuel ⊢
    split at hfuel
    next hnone =>
      have hlen := List.getElem?_eq_none_iff.1 hnone
      intro a ha b hb
      obtain ⟨j, hj, hget⟩ := List.mem_iff_getElem.1 ha
      exact hdone j (by omega) a (by rw [List.getElem?_eq_getElem hj, hget]) b hb
    next c hc =>
      refine ih ?_ (by omega)
      intro j hj a ha b hb
      -- The place scanned now is `i`, those before it were closed already.
      have hold : ∀ k, k ≤ i → seen[k]? = ((next c).foldl add seen)[k]? := by
        intro k hk
        have hlt := (List.getElem?_eq_some_iff.1 hc).1
        obtain ⟨added, hadded⟩ := prefix_foldl_add (next c) seen
        rw [← hadded, List.getElem?_append_left (by omega)]
      rw [← hold j (by omega)] at ha
      rw [mem_foldl_add]
      rcases Nat.lt_or_eq_of_le (Nat.le_of_lt_succ hj) with hlt | rfl
      · exact Or.inl (hdone j hlt a ha b hb)
      · rw [hc] at ha
        cases ha
        exact Or.inr hb

/-- The scan adds the nodes it comes to, in their order. -/
theorem scan_eq_foldl (next : α → List α) (fuel i : ℕ) (seen : List α) :
    scan next fuel i seen = (lookups next fuel i seen).foldl add seen := by
  induction fuel generalizing i seen with
  | zero => rfl
  | succ fuel ih =>
    unfold scan lookups
    split
    · rfl
    · rw [ih, List.foldl_append]

/-! ## The order -/

/-- No element stands in the order twice. -/
theorem nodup_order (next : α → List α) (start : α) (fuel : ℕ) : (order next start fuel).Nodup :=
  nodup_scan (List.nodup_singleton start) _ _

/-- What stands in the order can be reached. -/
theorem order_reachable {start a : α} {fuel : ℕ} (h : a ∈ order next start fuel) :
    Reaches next start a := by
  refine scan_reachable ?_ fuel 0 a h
  intro b hb
  rw [List.mem_singleton.1 hb]
  exact Relation.ReflTransGen.refl

/-- The start stands in the order. -/
theorem start_mem_order (next : α → List α) (start : α) (fuel : ℕ) :
    start ∈ order next start fuel :=
  (prefix_scan next fuel 0 [start]).subset (List.mem_singleton_self start)

/-- With fuel for all that can be reached, the order holds exactly that. -/
theorem mem_order_iff {start a : α} {nodes : List α} {fuel : ℕ}
    (hnodes : ∀ b, Reaches next start b → b ∈ nodes) (hfuel : nodes.length ≤ fuel) :
    a ∈ order next start fuel ↔ Reaches next start a := by
  refine ⟨order_reachable, fun h => ?_⟩
  have hle : (order next start fuel).length ≤ nodes.length :=
    ((nodup_order next start fuel).subperm fun b hb => hnodes b (order_reachable hb)).length_le
  have hclosed : ∀ b ∈ order next start fuel, ∀ c ∈ next b, c ∈ order next start fuel :=
    scan_closed (fun j hj => absurd hj (Nat.not_lt_zero j)) (hle.trans hfuel)
  induction h with
  | refl => exact start_mem_order next start fuel
  | tail _ hbc ih => exact hclosed _ ih _ hbc

end IUserApps.Worklist
