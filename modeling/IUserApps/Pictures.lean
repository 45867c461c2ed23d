import Mathlib.Data.Int.Order.Basic
import Mathlib.Data.List.Nodup
import Mathlib.Tactic.Common

/-!
# Pictures drawn by strokes

A stroke gives a place a new colour from its old one. Strokes drawn one after another on a region
leave each place of it the colour of `colorAt`, and the other places alone (`paintAll_apply`), so
two drawings make the same picture where their strokes are `SameAt` every place. What does not reach
a place may be left out there, and what covers it makes it forget its colour.

The second part is about the scans that look for the two ends of a row's part of a shape.
-/

namespace IUserApps.Pictures

variable {ι κ P C : Type*}

/-! ## Strokes -/

/-- The strokes of items, drawn on a region one after another. -/
def paintAll (stroke : ι → P → C → C) (region : P → Prop) [DecidablePred region]
    (items : List ι) (picture : P → C) : P → C :=
  items.foldl (fun picture x p => if region p then stroke x p (picture p) else picture p) picture

/-- The colour that the strokes of items leave at a place. -/
def colorAt (stroke : ι → P → C → C) (items : List ι) (p : P) (c : C) : C :=
  items.foldl (fun c x => stroke x p c) c

/-- Two lists of items leave the same colour at a place, whatever colour it had. -/
def SameAt (stroke : ι → P → C → C) (p : P) (xs ys : List ι) : Prop :=
  ∀ c, colorAt stroke xs p c = colorAt stroke ys p c

/-- An item leaves a place alone. -/
def Misses (stroke : ι → P → C → C) (x : ι) (p : P) : Prop := ∀ c, stroke x p c = c

/-- An item gives a place a colour that does not depend on the old one. -/
def Covers (stroke : ι → P → C → C) (x : ι) (p : P) : Prop := ∀ c c', stroke x p c = stroke x p c'

variable {stroke : ι → P → C → C} {p : P} {xs ys zs : List ι}

/-- On the region each place gets the colour of its strokes; the others are left alone. -/
theorem paintAll_apply (region : P → Prop) [DecidablePred region] (items : List ι)
    (picture : P → C) (p : P) :
    paintAll stroke region items picture p =
      if region p then colorAt stroke items p (picture p) else picture p := by
  induction items generalizing picture with
  | nil => exact (ite_self _).symm
  | cons x items ih =>
    show paintAll stroke region items _ p = _
    rw [ih]
    by_cases hp : region p
    · simp only [hp, if_true]
      rfl
    · simp only [hp, if_false]

/-- Without a stroke the colour stays. -/
@[simp] theorem colorAt_nil (c : C) : colorAt stroke [] p c = c := rfl

/-- The first stroke colours the point, then the others. -/
@[simp] theorem colorAt_cons (x : ι) (c : C) :
    colorAt stroke (x :: xs) p c = colorAt stroke xs p (stroke x p c) := rfl

/-- Strokes at the places that a map gives. -/
theorem colorAt_place {Q : Type*} (place : Q → P) (q : Q) (c : C) :
    colorAt (fun x q => stroke x (place q)) xs q c = colorAt stroke xs (place q) c := rfl

/-- Strokes in sequence: the first ones, then the others. -/
theorem colorAt_append (c : C) :
    colorAt stroke (xs ++ ys) p c = colorAt stroke ys p (colorAt stroke xs p c) :=
  List.foldl_append

/-- Items that all miss a place leave its colour. -/
theorem colorAt_of_misses (h : ∀ x ∈ xs, Misses stroke x p) (c : C) :
    colorAt stroke xs p c = c := by
  induction xs with
  | nil => rfl
  | cons x xs ih =>
    calc colorAt stroke (x :: xs) p c = colorAt stroke xs p (stroke x p c) := rfl
      _ = colorAt stroke xs p c := by rw [h x List.mem_cons_self c]
      _ = c := ih fun y hy => h y (List.mem_cons_of_mem _ hy)

/-- After an item that covers a place the old colour does not matter. -/
theorem colorAt_of_covers {x : ι} (h : Covers stroke x p) (c c' : C) :
    colorAt stroke (x :: xs) p c = colorAt stroke (x :: xs) p c' :=
  congrArg (colorAt stroke xs p) (h c c')

namespace SameAt

/-- Strokes colour a point like themselves. -/
theorem refl (xs : List ι) : SameAt stroke p xs xs := fun _ => rfl

/-- Colouring a point the same goes both ways. -/
theorem symm (h : SameAt stroke p xs ys) : SameAt stroke p ys xs := fun c => (h c).symm

/-- Colouring a point the same goes through a third. -/
theorem trans (h : SameAt stroke p xs ys) (h' : SameAt stroke p ys zs) :
    SameAt stroke p xs zs := fun c => (h c).trans (h' c)

/-- Lists whose items all miss a place. -/
theorem of_misses (hx : ∀ x ∈ xs, Misses stroke x p) (hy : ∀ y ∈ ys, Misses stroke y p) :
    SameAt stroke p xs ys := fun c =>
  (colorAt_of_misses hx c).trans (colorAt_of_misses hy c).symm

/-- Strokes that colour a point the same, one after the other. -/
theorem append {xs' ys' : List ι} (h : SameAt stroke p xs ys) (h' : SameAt stroke p xs' ys') :
    SameAt stroke p (xs ++ xs') (ys ++ ys') := by
  intro c
  rw [colorAt_append, colorAt_append, h c]
  exact h' _

/-- Drawings that are the same for every part of a scene. -/
theorem flatMap {f g : κ → List ι} {parts : List κ}
    (h : ∀ k ∈ parts, SameAt stroke p (f k) (g k)) :
    SameAt stroke p (parts.flatMap f) (parts.flatMap g) := by
  induction parts with
  | nil => exact refl _
  | cons k parts ih =>
    rw [List.flatMap_cons, List.flatMap_cons]
    exact append (h k List.mem_cons_self) (ih fun j hj => h j (List.mem_cons_of_mem _ hj))

end SameAt

/-- Of the parts of a drawing only one reaches the place. -/
theorem colorAt_flatMap_one [DecidableEq κ] {f : κ → List ι} {parts : List κ}
    (hnodup : parts.Nodup) (k : κ) (hmiss : ∀ j ∈ parts, j ≠ k → ∀ x ∈ f j, Misses stroke x p)
    (c : C) :
    colorAt stroke (parts.flatMap f) p c = if k ∈ parts then colorAt stroke (f k) p c else c := by
  induction parts generalizing c with
  | nil => simp
  | cons j parts ih =>
    obtain ⟨hj, hnodup⟩ := List.nodup_cons.1 hnodup
    have hrest := ih hnodup fun i hi => hmiss i (List.mem_cons_of_mem _ hi)
    rw [List.flatMap_cons, colorAt_append, hrest]
    by_cases hjk : j = k
    · rw [← hjk, if_neg hj, if_pos List.mem_cons_self]
    · rw [colorAt_of_misses (hmiss j List.mem_cons_self hjk)]
      simp [Ne.symm hjk]

/-! ## The ends of a row's part of a shape -/

/-- Goes up from a column, `n` columns at most, to the first inside. -/
def skipUp (inside : ℤ → Bool) : ℕ → ℤ → ℤ
  | 0, x => x
  | n + 1, x => if inside x then x else skipUp inside n (x + 1)

/-- Goes down from a column, `n` columns at most, until the column before it is inside. -/
def skipDown (inside : ℤ → Bool) : ℕ → ℤ → ℤ
  | 0, x => x
  | n + 1, x => if inside (x - 1) then x else skipDown inside n (x - 1)

/-- What is skipped on the way up is outside, and what stops it is inside. -/
theorem skipUp_spec (inside : ℤ → Bool) (n : ℕ) (x : ℤ) :
    x ≤ skipUp inside n x ∧ skipUp inside n x ≤ x + n ∧
      (∀ z, x ≤ z → z < skipUp inside n x → inside z = false) ∧
      (skipUp inside n x < x + n → inside (skipUp inside n x) = true) := by
  induction n generalizing x with
  | zero =>
    refine ⟨le_refl _, by simp [skipUp], fun z hz hz' => ?_, fun h => ?_⟩
    · exact absurd hz' (not_lt.2 hz)
    · simp [skipUp] at h
  | succ n ih =>
    cases hx : inside x with
    | true =>
      have hstop : skipUp inside (n + 1) x = x := by simp [skipUp, hx]
      rw [hstop]
      exact ⟨le_refl _, by omega, fun z hz hz' => absurd hz' (not_lt.2 hz), fun _ => hx⟩
    | false =>
      have hon : skipUp inside (n + 1) x = skipUp inside n (x + 1) := by simp [skipUp, hx]
      obtain ⟨hle, hbound, hout, hin⟩ := ih (x + 1)
      rw [hon]
      refine ⟨by omega, by omega, fun z hz hz' => ?_, fun h => hin (by omega)⟩
      by_cases hzx : z = x
      · rw [hzx, hx]
      · exact hout z (by omega) hz'

/-- What is skipped on the way down is outside, and what stops it is inside. -/
theorem skipDown_spec (inside : ℤ → Bool) (n : ℕ) (x : ℤ) :
    skipDown inside n x ≤ x ∧ x - n ≤ skipDown inside n x ∧
      (∀ z, skipDown inside n x ≤ z → z < x → inside z = false) ∧
      (x - n < skipDown inside n x → inside (skipDown inside n x - 1) = true) := by
  induction n generalizing x with
  | zero =>
    refine ⟨le_refl _, by simp [skipDown], fun z hz hz' => ?_, fun h => ?_⟩
    · exact absurd hz' (not_lt.2 hz)
    · simp [skipDown] at h
  | succ n ih =>
    cases hx : inside (x - 1) with
    | true =>
      have hstop : skipDown inside (n + 1) x = x := by simp [skipDown, hx]
      rw [hstop]
      exact ⟨le_refl _, by omega, fun z hz hz' => absurd hz' (not_lt.2 hz), fun _ => hx⟩
    | false =>
      have hon : skipDown inside (n + 1) x = skipDown inside n (x - 1) := by simp [skipDown, hx]
      obtain ⟨hle, hbound, hout, hin⟩ := ih (x - 1)
      rw [hon]
      refine ⟨by omega, by omega, fun z hz hz' => ?_, fun h => hin (by omega)⟩
      by_cases hzx : z = x - 1
      · rw [hzx, hx]
      · exact hout z hz (by omega)

/-- The columns inside have no gap. -/
def NoGaps (inside : ℤ → Bool) : Prop :=
  ∀ x y z, inside x = true → inside z = true → x ≤ y → y ≤ z → inside y = true

variable {inside : ℤ → Bool}

/-- Without gaps the two scans find the columns inside, cut to the range. -/
theorem mem_span_iff (hgaps : NoGaps inside) {lo hi : ℤ} {m n : ℕ} {left right : ℤ}
    (hm : (m : ℤ) = hi - lo) (hleft : left = skipUp inside m lo) (hn : (n : ℤ) = hi - left)
    (hright : right = skipDown inside n hi) (x : ℤ) :
    left ≤ x ∧ x < right ↔ lo ≤ x ∧ x < hi ∧ inside x = true := by
  obtain ⟨hlo, hlohi, houtl, hinl⟩ := skipUp_spec inside m lo
  obtain ⟨hhi, hhilo, houtr, hinr⟩ := skipDown_spec inside n hi
  rw [← hleft] at hlo hlohi houtl hinl
  rw [← hright] at hhi hhilo houtr hinr
  constructor
  · rintro ⟨hl, hr⟩
    have hfirst := hinl (by omega)
    have hlast := hinr (by omega)
    exact ⟨by omega, by omega, hgaps left x (right - 1) hfirst hlast hl (by omega)⟩
  · rintro ⟨hl, hr, hx⟩
    refine ⟨?_, ?_⟩
    · by_contra hlt
      rw [houtl x hl (by omega)] at hx
      exact Bool.false_ne_true hx
    · by_contra hlt
      rw [houtr x (by omega) hr] at hx
      exact Bool.false_ne_true hx

end IUserApps.Pictures
