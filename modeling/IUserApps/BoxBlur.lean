import Mathlib.Algebra.BigOperators.Intervals
import Mathlib.Algebra.Order.BigOperators.Group.Finset
import Mathlib.Tactic.Common

/-!
# Box blurs

The mean of a line of numbers over a window of `2 r + 1` places, rounded down, with the ends of the
line repeated; and rounds of it over the rows and then the columns of a picture. The sum over a
window moves on by one place with one place added and one dropped (`windowSum_succ`). A part of the
picture is blurred as the whole is, away from where the part was cut: `rounds * r` places from a cut
are enough (`blur_crop`).
-/

namespace IUserApps.BoxBlur

/-! ## Lines -/

/-- The place of a line of `n` that is the `k`th of the window about `i`. -/
def clamped (r n i k : ℕ) : ℕ := min (i + k - r) (n - 1)

/-- The sum of a line over the window about `i`. -/
def windowSum (r n : ℕ) (line : ℕ → ℕ) (i : ℕ) : ℕ :=
  ∑ k ∈ Finset.range (2 * r + 1), line (clamped r n i k)

/-- The mean of a line over the window about `i`. -/
def windowMean (r n : ℕ) (line : ℕ → ℕ) (i : ℕ) : ℕ := windowSum r n line i / (2 * r + 1)

variable {r n i : ℕ} {line : ℕ → ℕ}

/-- A clamped index is on the line. -/
theorem clamped_lt (h : i < n) (k : ℕ) : clamped r n i k < n := by
  unfold clamped
  omega

/-- The next window has one more place at its end and one less at its start. -/
theorem windowSum_succ (r n i : ℕ) (line : ℕ → ℕ) :
    windowSum r n line (i + 1) + line (min (i - r) (n - 1)) =
      windowSum r n line i + line (min (i + r + 1) (n - 1)) := by
  have hshift : ∀ k, clamped r n (i + 1) k = clamped r n i (k + 1) := by
    intro k
    unfold clamped
    congr 2
    omega
  have hlast : clamped r n (i + 1) (2 * r) = min (i + r + 1) (n - 1) := by
    unfold clamped
    congr 1
    omega
  have hfirst : clamped r n i 0 = min (i - r) (n - 1) := rfl
  unfold windowSum
  rw [Finset.sum_range_succ, Finset.sum_range_succ', hlast, hfirst]
  simp only [hshift]
  omega

/-- A mean depends only on the line's values. -/
theorem windowMean_congr {line' : ℕ → ℕ} (hi : i < n) (h : ∀ j < n, line j = line' j) :
    windowMean r n line i = windowMean r n line' i := by
  unfold windowMean windowSum
  rw [Finset.sum_congr rfl fun k _ => h _ (clamped_lt hi k)]

/-- A line at most `bound` has means at most `bound`. -/
theorem windowMean_le {bound : ℕ} (hi : i < n) (hline : ∀ j < n, line j ≤ bound) :
    windowMean r n line i ≤ bound := by
  have hsum : windowSum r n line i ≤ (2 * r + 1) * bound := by
    have h := Finset.sum_le_card_nsmul (Finset.range (2 * r + 1))
      (fun k => line (clamped r n i k)) bound fun k _ => hline _ (clamped_lt hi k)
    rwa [Finset.card_range, Nat.nsmul_eq_mul] at h
  exact Nat.div_le_of_le_mul hsum

/-- A mean over a window that has a place below the bound is below it. -/
theorem windowMean_lt {bound k : ℕ} (hi : i < n) (hline : ∀ j < n, line j ≤ bound)
    (hk : k < 2 * r + 1) (hlow : line (clamped r n i k) < bound) :
    windowMean r n line i < bound := by
  have hsum : windowSum r n line i < (2 * r + 1) * bound := by
    have h := Finset.sum_lt_sum (s := Finset.range (2 * r + 1))
      (f := fun k => line (clamped r n i k)) (g := fun _ => bound)
      (fun k _ => hline _ (clamped_lt hi k)) ⟨k, Finset.mem_range.2 hk, hlow⟩
    rwa [Finset.sum_const, Finset.card_range, Nat.nsmul_eq_mul] at h
  exact Nat.div_lt_of_lt_mul hsum

/-- The mean of equal numbers. -/
theorem windowMean_const {value : ℕ} (hi : i < n) (hline : ∀ j < n, line j = value) :
    windowMean r n line i = value := by
  have hsum : windowSum r n line i = (2 * r + 1) * value := by
    have h := Finset.sum_congr (rfl : Finset.range (2 * r + 1) = _)
      (fun k _ => hline (clamped r n i k) (clamped_lt hi k))
    rwa [Finset.sum_const, Finset.card_range, Nat.nsmul_eq_mul] at h
  unfold windowMean
  rw [hsum, Nat.mul_div_cancel_left _ (by omega)]

/-- A place of the `m` places from `offset` on of a line of `n`, so far from where they were cut. -/
def Kept (offset m n margin i : ℕ) : Prop :=
  i < m ∧ (offset = 0 ∨ margin ≤ i) ∧ (offset + m = n ∨ i + margin < m)

/-- The window about a place that is kept has its places in the part, where they are kept with a
margin less by the radius. -/
theorem Kept.clamped {offset m margin : ℕ} (h : Kept offset m n (margin + r) i)
    (hin : offset + m ≤ n) {k : ℕ} (hk : k < 2 * r + 1) :
    Kept offset m n margin (clamped r m i k) ∧
      BoxBlur.clamped r n (offset + i) k = offset + BoxBlur.clamped r m i k := by
  obtain ⟨hi, hstart, hend⟩ := h
  unfold Kept BoxBlur.clamped
  omega

/-- The mean in a part of a line is that in the line. -/
theorem windowMean_crop {offset m margin : ℕ} {part : ℕ → ℕ} (hin : offset + m ≤ n)
    (hsame : ∀ j, Kept offset m n margin j → part j = line (offset + j))
    (hi : Kept offset m n (margin + r) i) :
    windowMean r m part i = windowMean r n line (offset + i) := by
  unfold windowMean windowSum
  congr 1
  refine Finset.sum_congr rfl fun k hk => ?_
  obtain ⟨hkept, hplace⟩ := hi.clamped hin (Finset.mem_range.1 hk)
  rw [hsame _ hkept, hplace]

/-! ## Pictures -/

/-- The numbers of a picture by column and row. -/
abbrev Picture := ℕ → ℕ → ℕ

/-- The means along the rows. -/
def rowMeans (r width : ℕ) (p : Picture) : Picture :=
  fun x y => windowMean r width (fun x => p x y) x

/-- The means along the columns. -/
def columnMeans (r height : ℕ) (p : Picture) : Picture :=
  fun x y => windowMean r height (fun y => p x y) y

/-- Rounds of means along the rows and then along the columns. -/
def blur (r width height : ℕ) : ℕ → Picture → Picture
  | 0, p => p
  | rounds + 1, p => columnMeans r height (rowMeans r width (blur r width height rounds p))

variable {width height rounds x y : ℕ} {p : Picture}

/-- A blur is no more than the greatest value. -/
theorem blur_le {bound : ℕ} (hp : ∀ x < width, ∀ y < height, p x y ≤ bound) (hx : x < width)
    (hy : y < height) : blur r width height rounds p x y ≤ bound := by
  induction rounds generalizing x y with
  | zero => exact hp x hx y hy
  | succ rounds ih =>
    exact windowMean_le hy fun y' hy' => windowMean_le hx fun x' hx' => ih hx' hy'

/-- A plain picture is blurred to itself. -/
theorem blur_const {value : ℕ} (hp : ∀ x < width, ∀ y < height, p x y = value) (hx : x < width)
    (hy : y < height) : blur r width height rounds p x y = value := by
  induction rounds generalizing x y with
  | zero => exact hp x hx y hy
  | succ rounds ih =>
    exact windowMean_const hy fun y' hy' => windowMean_const hx fun x' hx' => ih hx' hy'

/-- Pictures that agree are blurred alike. -/
theorem blur_congr {q : Picture} (hp : ∀ x < width, ∀ y < height, p x y = q x y) (hx : x < width)
    (hy : y < height) :
    blur r width height rounds p x y = blur r width height rounds q x y := by
  induction rounds generalizing x y with
  | zero => exact hp x hx y hy
  | succ rounds ih =>
    exact windowMean_congr hy fun y' hy' => windowMean_congr hx fun x' hx' => ih hx' hy'

/-- A row below the bound brings the rows above it, as far as the rounds reach, below it too. -/
theorem blur_lt {bound : ℕ} (row : ℕ) (hp : ∀ x < width, ∀ y < height, p x y ≤ bound)
    (hlow : ∀ x < width, p x row < bound) (hrow : row < height) (hx : x < width) (hy : y < height)
    (habove : y ≤ row) (hreach : row ≤ y + rounds * r) :
    blur r width height rounds p x y < bound := by
  induction rounds generalizing x y with
  | zero =>
    obtain rfl : y = row := by omega
    exact hlow x hx
  | succ rounds ih =>
    -- The window about `y` has a place as far towards the row as it goes.
    obtain ⟨k, hk, habove', hreach'⟩ : ∃ k < 2 * r + 1,
        clamped r height y k ≤ row ∧ row ≤ clamped r height y k + rounds * r := by
      rw [Nat.succ_mul] at hreach
      refine ⟨min (r + (row - y)) (2 * r), by omega, ?_⟩
      unfold clamped
      omega
    refine windowMean_lt hy (fun y' hy' => windowMean_le hx fun x' hx' => blur_le hp hx' hy') hk ?_
    have hy' := clamped_lt (r := r) hy k
    refine windowMean_lt hx (fun x' hx' => blur_le hp hx' hy') (k := r) (by omega) ?_
    exact ih (clamped_lt hx r) hy' habove' hreach'

/-- A part of a picture is blurred as the picture is, away from where it was cut. -/
theorem blur_crop {left top partWidth partHeight : ℕ} {part : Picture}
    (hwidth : left + partWidth ≤ width) (hheight : top + partHeight ≤ height)
    (hpart : ∀ x < partWidth, ∀ y < partHeight, part x y = p (left + x) (top + y))
    (hx : Kept left partWidth width (rounds * r) x)
    (hy : Kept top partHeight height (rounds * r) y) :
    blur r partWidth partHeight rounds part x y =
      blur r width height rounds p (left + x) (top + y) := by
  induction rounds generalizing x y with
  | zero => exact hpart x hx.1 y hy.1
  | succ rounds ih =>
    rw [Nat.succ_mul] at hx hy
    exact windowMean_crop hheight
      (fun y' hy' => windowMean_crop hwidth (fun x' hx' => ih hx' hy') hx) hy

end IUserApps.BoxBlur
