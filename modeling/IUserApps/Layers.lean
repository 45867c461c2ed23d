import Mathlib.Data.List.Basic

/-!
# Layers

What is written over and over, part by part: each layer gives some places a value and leaves the
others, so that a place holds what the last layer over it gives (`foldl_lay`). `last` is that value,
of the layers at one place; `last_of_split` and `last_ite` say what it is.
-/

namespace IUserApps.Layers

variable {ι κ β : Type*}

/-- A layer over what is there. -/
def lay (layer : ι → Option β) (below : ι → β) : ι → β := fun i => (layer i).getD (below i)

/-- The value of the last item that has one, or the one given. -/
def last (value : κ → Option β) (items : List κ) (b : β) : β :=
  items.foldl (fun b x => (value x).getD b) b

/-- Under layers, a place holds what the last of them over it gives. -/
theorem foldl_lay (layer : κ → ι → Option β) (items : List κ) (below : ι → β) (i : ι) :
    items.foldl (fun below x => lay (layer x) below) below i =
      last (fun x => layer x i) items (below i) := by
  induction items generalizing below with
  | nil => rfl
  | cons x items ih => exact ih (lay (layer x) below)

variable {value : κ → Option β} {items : List κ}

/-- The last value of items in sequence: that of the second ones, or else of the first. -/
theorem last_append (before after : List κ) (b : β) :
    last value (before ++ after) b = last value after (last value before b) := List.foldl_append

/-- Without a value there is the one given. -/
theorem last_of_none (h : ∀ x ∈ items, value x = none) (b : β) : last value items b = b := by
  induction items with
  | nil => rfl
  | cons x items ih =>
    have hrest := ih fun y hy => h y (List.mem_cons_of_mem _ hy)
    show last value items ((value x).getD b) = b
    rw [h x List.mem_cons_self]
    exact hrest

/-- An item whose followers have no value is the last. -/
theorem last_of_split {before after : List κ} {x : κ} {v : β} (hx : value x = some v)
    (hafter : ∀ y ∈ after, value y = none) (b : β) : last value (before ++ x :: after) b = v := by
  have hlast := last_of_none hafter v
  rw [last_append]
  show last value after ((value x).getD _) = v
  rw [hx]
  exact hlast

/-- If any item has a property, one is the last. -/
theorem exists_split {P : κ → Prop} (h : ∃ x ∈ items, P x) : ∃ before x after,
    items = before ++ x :: after ∧ P x ∧ ∀ y ∈ after, ¬P y := by
  induction items with
  | nil =>
    obtain ⟨x, hx, -⟩ := h
    exact absurd hx List.not_mem_nil
  | cons x items ih =>
    by_cases hrest : ∃ y ∈ items, P y
    · obtain ⟨before, y, after, rfl, hy, hafter⟩ := ih hrest
      exact ⟨x :: before, y, after, rfl, hy, hafter⟩
    · have hnone : ∀ y ∈ items, ¬P y := fun y hy hP => hrest ⟨y, hy, hP⟩
      obtain ⟨y, hy, hP⟩ := h
      rcases List.mem_cons.1 hy with rfl | hy
      · exact ⟨[], y, items, rfl, hP, hnone⟩
      · exact absurd hP (hnone y hy)

/-- Items that have one value, where they have any: it is the last as soon as one has it. -/
theorem last_ite {P : κ → Prop} [DecidablePred P] [Decidable (∃ x ∈ items, P x)] {v : β}
    (h : ∀ x ∈ items, value x = if P x then some v else none) (b : β) :
    last value items b = if ∃ x ∈ items, P x then v else b := by
  split
  · next hsome =>
    obtain ⟨before, x, after, rfl, hP, hafter⟩ := exists_split hsome
    have hx : value x = some v := by
      rw [h x (List.mem_append_right _ List.mem_cons_self), if_pos hP]
    apply last_of_split hx
    intro y hy
    rw [h y (List.mem_append_right _ (List.mem_cons_of_mem _ hy)), if_neg (hafter y hy)]
  · next hnone =>
    apply last_of_none
    intro x hx
    rw [h x hx, if_neg fun hP => hnone ⟨x, hx, hP⟩]

end IUserApps.Layers
