import Mathlib.Data.List.Basic

/-!
# Frames that name their length

A buffer of frames of different lengths, each of which says at its start how long it is: a reader
that has the whole buffer follows the lengths from the first frame on. `split_flatten` says that it
finds the frames that were written, when each names its own length whatever comes after it.
-/

namespace IUserApps.Frames

variable {α : Type*} {len : List α → ℕ}

/-- The frames of a buffer, by the length that each names. There are none when a frame names no
length, or one that the buffer does not have, and no more than `fuel`. -/
def split (len : List α → ℕ) : ℕ → List α → Option (List (List α))
  | _, [] => some []
  | 0, _ :: _ => none
  | fuel + 1, buffer =>
    if len buffer = 0 ∨ buffer.length < len buffer then none
    else (split len fuel (buffer.drop (len buffer))).map (buffer.take (len buffer) :: ·)

/-- A frame that names its length at the start of every buffer. -/
structure IsFrame (len : List α → ℕ) (frame : List α) : Prop where
  ne_nil : frame ≠ []
  len_append : ∀ rest, len (frame ++ rest) = frame.length

/-- The next frame is the one that the buffer names. -/
theorem split_succ {buffer : List α} (h : buffer ≠ []) (fuel : ℕ) :
    split len (fuel + 1) buffer =
      if len buffer = 0 ∨ buffer.length < len buffer then none
      else (split len fuel (buffer.drop (len buffer))).map (buffer.take (len buffer) :: ·) := by
  cases buffer with
  | nil => exact absurd rfl h
  | cons x xs => rfl

/-- The first frame is split off. -/
theorem split_append {frame : List α} (h : IsFrame len frame) (fuel : ℕ) (rest : List α) :
    split len (fuel + 1) (frame ++ rest) = (split len fuel rest).map (frame :: ·) := by
  have hpos := List.length_pos_iff.2 h.ne_nil
  have hroom : ¬(frame.length = 0 ∨ (frame ++ rest).length < frame.length) := by
    rw [List.length_append]
    omega
  rw [split_succ (List.append_ne_nil_of_left_ne_nil h.ne_nil rest), h.len_append, if_neg hroom,
    List.drop_left, List.take_left]

/-- Frames written one after another are found again. -/
theorem split_flatten {frames : List (List α)} {fuel : ℕ} (h : ∀ frame ∈ frames, IsFrame len frame)
    (hfuel : frames.length ≤ fuel) : split len fuel frames.flatten = some frames := by
  induction frames generalizing fuel with
  | nil =>
    rw [List.flatten_nil]
    unfold split
    rfl
  | cons frame frames ih =>
    rw [List.length_cons] at hfuel
    obtain ⟨fuel, rfl⟩ := Nat.exists_eq_add_of_le' (Nat.le_of_add_left_le hfuel)
    have hrest := ih (fun f hf => h f (List.mem_cons_of_mem _ hf))
      (Nat.le_of_add_le_add_right hfuel)
    rw [List.flatten_cons, split_append (h frame List.mem_cons_self), hrest]
    rfl

/-- Frames are no more than what they hold. -/
theorem length_le_flatten {frames : List (List α)} (h : ∀ frame ∈ frames, frame ≠ []) :
    frames.length ≤ frames.flatten.length := by
  induction frames with
  | nil => exact Nat.le_refl 0
  | cons frame frames ih =>
    have hrest := ih fun f hf => h f (List.mem_cons_of_mem _ hf)
    have hpos := List.length_pos_iff.2 (h frame List.mem_cons_self)
    rw [List.flatten_cons, List.length_append, List.length_cons]
    omega

end IUserApps.Frames
