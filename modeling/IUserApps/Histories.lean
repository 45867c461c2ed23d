import Mathlib.Data.List.Basic
import Mathlib.Tactic.Common

/-!
# Browsing histories

Where one has been: the current place, the places before it and those one went back from, the
nearest first in both. A history keeps `n` places beside the current one at most. Going back and
forth moves along the line of places and forgets none of them; a visit of a new place forgets those
ahead, and the oldest one when there is no room left.
-/

namespace IUserApps.Histories

variable {α : Type*} {n : ℕ}

/-- A history of no more than `n` places beside the current one. -/
structure History (α : Type*) (n : ℕ) where
  back : List α
  current : α
  forward : List α
  length_le : back.length + forward.length ≤ n

namespace History

/-- All its places, from the oldest on. -/
def line (h : History α n) : List α := h.back.reverse ++ h.current :: h.forward

/-- Puts a place on top of the ones before, of which there is room for `n`. -/
def pushed (n : ℕ) (a : α) (as : List α) : List α :=
  a :: if as.length = n then as.dropLast else as

/-- A stack with room for `n` never has more. -/
theorem length_pushed_le {n : ℕ} (hn : 0 < n) (a : α) {as : List α} (h : as.length ≤ n) :
    (pushed n a as).length ≤ n := by
  unfold pushed
  rw [List.length_cons]
  split
  · rw [List.length_dropLast]
    omega
  · omega

/-- With room left nothing is forgotten. -/
theorem pushed_of_lt {n : ℕ} (a : α) {as : List α} (h : as.length < n) :
    pushed n a as = a :: as := by
  unfold pushed
  rw [if_neg (by omega)]

/-- Visits a new place. -/
def visit (hn : 0 < n) (h : History α n) (a : α) : History α n where
  back := pushed n h.current h.back
  current := a
  forward := []
  length_le := by
    have := h.length_le
    exact length_pushed_le hn h.current (by omega)

/-- Goes back by a place, if there is one. -/
def goBack (h : History α n) : History α n :=
  match h with
  | ⟨[], current, forward, length_le⟩ => ⟨[], current, forward, length_le⟩
  | ⟨a :: back, current, forward, length_le⟩ =>
    ⟨back, a, current :: forward, by
      rw [List.length_cons] at length_le ⊢
      omega⟩

/-- Goes forward by a place, if there is one. -/
def goForward (h : History α n) : History α n :=
  match h with
  | ⟨back, current, [], length_le⟩ => ⟨back, current, [], length_le⟩
  | ⟨back, current, a :: forward, length_le⟩ =>
    ⟨current :: back, a, forward, by
      rw [List.length_cons] at length_le ⊢
      omega⟩

/-- Back leads to the nearest place before. -/
theorem goBack_of_back {h : History α n} {a : α} {back : List α} (hback : h.back = a :: back) :
    h.goBack.current = a ∧ h.goBack.back = back ∧ h.goBack.forward = h.current :: h.forward := by
  obtain ⟨places, current, forward, length_le⟩ := h
  cases hback
  exact ⟨rfl, rfl, rfl⟩

/-- Forward leads to the nearest place that one went back from. -/
theorem goForward_of_forward {h : History α n} {a : α} {forward : List α}
    (hforward : h.forward = a :: forward) :
    h.goForward.current = a ∧ h.goForward.forward = forward ∧
      h.goForward.back = h.current :: h.back := by
  obtain ⟨back, current, places, length_le⟩ := h
  cases hforward
  exact ⟨rfl, rfl, rfl⟩

/-- Forward undoes back. -/
theorem goForward_goBack {h : History α n} (hback : h.back ≠ []) : h.goBack.goForward = h := by
  obtain ⟨back, current, forward, length_le⟩ := h
  cases back with
  | nil => exact absurd rfl hback
  | cons a back => rfl

/-- Back undoes forward. -/
theorem goBack_goForward {h : History α n} (hforward : h.forward ≠ []) :
    h.goForward.goBack = h := by
  obtain ⟨back, current, forward, length_le⟩ := h
  cases forward with
  | nil => exact absurd rfl hforward
  | cons a forward => rfl

/-- Going back forgets nothing. -/
theorem line_goBack (h : History α n) : h.goBack.line = h.line := by
  obtain ⟨back, current, forward, length_le⟩ := h
  cases back with
  | nil => rfl
  | cons a back =>
    show back.reverse ++ a :: current :: forward = (a :: back).reverse ++ current :: forward
    rw [List.reverse_cons, List.append_assoc, List.singleton_append]

/-- Going forward forgets nothing. -/
theorem line_goForward (h : History α n) : h.goForward.line = h.line := by
  obtain ⟨back, current, forward, length_le⟩ := h
  cases forward with
  | nil => rfl
  | cons a forward =>
    show (current :: back).reverse ++ a :: forward = back.reverse ++ current :: a :: forward
    rw [List.reverse_cons, List.append_assoc, List.singleton_append]

end History

end IUserApps.Histories
