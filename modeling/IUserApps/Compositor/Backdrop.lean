import IUserApps.BoxBlur
import IUserApps.Checked
import IUserApps.Compositor.Present

/-!
# The picture behind the taskbar

`blur_bar_backdrop` keeps the wallpaper under the taskbar, blurred: it copies the part of the
wallpaper around the bar, runs three rounds of a box blur over the copy, and copies the bar's part
out of it. The box blur keeps the sum over a window and moves it on. Indices are products of an
`int`, and one that overflows is no place; those of the wallpaper are `uint32_t`, which wrap.

The stored picture is the bar's part of the whole wallpaper's blur (`BoxBlur.blur`) for every
wallpaper of a size, exactly when no index of this size overflows or wraps (`blursRight_iff`).
-/

namespace IUserApps.Compositor

open Checked Loops BoxBlur

/-- The words a mean reaches to each side. -/
def kBarBlurRadius : ℕ := 10

/-- The wallpaper. -/
structure DesktopBackground where
  width : ℕ
  height : ℕ
  pixels : ℕ → BitVec 32
  width_lt : width < 2^32
  height_lt : height < 2^32

/-- What the arrays that a blur allocates hold before it. -/
structure BlurArrays where
  work : ℕ → BitVec 32
  temp : ℕ → BitVec 32
  out : ℕ → BitVec 32

/-- `barBlur` and `barBlurRect`. -/
structure BarBlur where
  pixels : ℕ → BitVec 32
  rect : Rect

/-! ## Words -/

/-- An index that is computed as an `int`. -/
def intIndex (z : ℤ) : Access ℕ :=
  if 0 ≤ z ∧ z < 2^31 then .ok z.toNat else .error (.read z.toNat)

/-- A word of an array of `size` words; an index past it is an access outside. -/
def readWord (size : ℕ) (words : ℕ → BitVec 32) (i : ℕ) : Access (BitVec 32) :=
  if i < size then .ok (words i) else .error (.read i)

/-- The array with a word stored; an index past it is an access outside. -/
def writeWord (size : ℕ) (words : ℕ → BitVec 32) (i : ℕ) (value : BitVec 32) :
    Access (ℕ → BitVec 32) :=
  if i < size then .ok (Function.update words i value) else .error (.write i)

/-- `memcpy` of `count` words from one array into another. -/
def copyWords (size : ℕ) (words : ℕ → BitVec 32) (start size' : ℕ) (words' : ℕ → BitVec 32)
    (start' count : ℕ) : Access (ℕ → BitVec 32) :=
  if start + count ≤ size ∧ start' + count ≤ size' then
    .ok fun k => if start ≤ k ∧ k < start + count then words' (start' + (k - start)) else words k
  else .error (.read start')

/-- `(p >> 8 c) & 0xFF`. -/
def channel (p : BitVec 32) (c : ℕ) : ℕ := (p >>> (8 * c) &&& 0xFF).toNat

/-- The sums of the three colour channels. -/
abbrev Sums := Fin 3 → ℤ

/-- The word of the means. -/
def meanWord (sum : Sums) : BitVec 32 :=
  let mean (c : Fin 3) : BitVec 32 := BitVec.ofInt 32 ((sum c).tdiv (2 * kBarBlurRadius + 1))
  (0xFF000000 : BitVec 32) ||| mean 0 ||| mean 1 <<< 8 ||| mean 2 <<< 16

/-! ## The blur -/

/-- Adds the `n`th place of the window about the first place of a line. -/
def sumStep (size : ℕ) (words : ℕ → BitVec 32) (start length step : ℕ) (sum : Sums) (n : ℕ) :
    Access Sums := do
  -- The window begins before the line; places outside count as its ends.
  let k : ℤ := n - kBarBlurRadius
  let at' : ℤ := if k < 0 then 0 else if length ≤ k then length - 1 else k
  let place ← intIndex (at' * step)
  let p ← readWord size words (start + place)
  .ok fun c => sum c + channel p c

/-- Writes the mean at one place of a line and moves the sums on. -/
def boxStep (size : ℕ) (words : ℕ → BitVec 32) (start length step : ℕ)
    (s : (ℕ → BitVec 32) × Sums) (i : ℕ) : Access ((ℕ → BitVec 32) × Sums) := do
  let place ← intIndex (i * step)
  let res ← writeWord size s.1 (start + place) (meanWord s.2)
  -- The window moves by one: a word comes in behind it and the first one goes.
  let addAt : ℤ := if (length : ℤ) ≤ i + kBarBlurRadius + 1 then length - 1
    else i + kBarBlurRadius + 1
  let dropAt : ℤ := if (i : ℤ) - kBarBlurRadius < 0 then 0 else i - kBarBlurRadius
  let addPlace ← intIndex (addAt * step)
  let add ← readWord size words (start + addPlace)
  let dropPlace ← intIndex (dropAt * step)
  let drop ← readWord size words (start + dropPlace)
  .ok (res, fun c => s.2 c + ((channel add c : ℤ) - channel drop c))

/-- A line of a pass. -/
def boxLine (size : ℕ) (words : ℕ → BitVec 32) (length step lineStep : ℕ) (res : ℕ → BitVec 32)
    (line : ℕ) : Access (ℕ → BitVec 32) := do
  let start ← intIndex (line * lineStep)
  let sum ← (List.range (2 * kBarBlurRadius + 1)).foldlM
    (sumStep size words start length step) fun _ => 0
  let s ← (List.range length).foldlM (boxStep size words start length step) (res, sum)
  .ok s.1

/-- One pass along `lines` lines, into `res`. -/
def box (size : ℕ) (words res : ℕ → BitVec 32) (length lines step lineStep : ℕ) :
    Access (ℕ → BitVec 32) :=
  (List.range lines).foldlM (boxLine size words length step lineStep) res

/-- The part of the wallpaper that is blurred: the bar and what its blur reaches. -/
def blurSource [Ui] (width height : ℕ) : Rect :=
  let bar := taskbarBarRect width height
  let reach : ℤ := 3 * kBarBlurRadius
  (Rect.mk (bar.x - reach) (bar.y - reach) (bar.width + 2 * reach)
    (bar.height + 2 * reach)).intersect ⟨0, 0, int32 width, int32 height⟩

/-- The blur that is stored, if one is; `arrays` is none when they are not allocated. -/
def blurBarBackdrop [Ui] (background : DesktopBackground) (arrays : Option BlurArrays) :
    Access (Option BarBlur) :=
  let bar := taskbarBarRect background.width background.height
  let source := blurSource background.width background.height
  if source.empty ∨ bar.empty then .ok none
  else match arrays with
  | none => .ok none
  | some arrays => do
    let w := source.width.toNat
    let h := source.height.toNat
    -- Rows of the wallpaper; their index there is a `uint32_t`.
    let work ← (List.range h).foldlM (fun work (y : ℕ) => do
      let start ← intIndex (y * w)
      copyWords (w * h) work start (background.width * background.height) background.pixels
        (u32 ((source.y + y) * background.width + source.x)) w) arrays.work
    let s ← (List.range 3).foldlM (fun s _ => do
      -- Along the rows into `temp`, along the columns back.
      let temp ← box (w * h) s.1 s.2 w h 1 w
      let work ← box (w * h) temp s.1 h w w 1
      .ok (work, temp)) (work, arrays.temp)
    let out ← (List.range bar.height.toNat).foldlM (fun out (y : ℕ) => do
      let start ← intIndex (y * bar.width)
      let place ← intIndex ((bar.y - source.y + y) * w + (bar.x - source.x))
      copyWords (bar.width.toNat * bar.height.toNat) out start (w * h) s.1 place bar.width.toNat)
      arrays.out
    .ok (some ⟨out, bar⟩)

/-! ## Words, read and written -/

/-- Below `2^31` the index is the number itself. -/
theorem intIndex_of_lt {n : ℕ} (h : n < 2^31) : intIndex n = .ok n := by
  unfold intIndex
  rw [if_pos (by omega), Int.toNat_natCast]

/-- A channel is the byte of the word at its place. -/
theorem channel_eq (p : BitVec 32) (c : ℕ) : channel p c = p.toNat / 2 ^ (8 * c) % 256 := by
  unfold channel
  rw [BitVec.toNat_and, BitVec.toNat_ushiftRight, Nat.shiftRight_eq_div_pow]
  exact Nat.and_two_pow_sub_one_eq_mod _ 8

/-- A channel is a byte. -/
theorem channel_le (p : BitVec 32) (c : ℕ) : channel p c ≤ 255 := by
  rw [channel_eq]
  omega

/-- The means of sums of bytes, side by side below the alpha. -/
theorem toNat_meanWord {sums : Fin 3 → ℕ} (hsums : ∀ c, sums c / (2 * kBarBlurRadius + 1) ≤ 255) :
    (meanWord fun c => sums c).toNat =
      2^24 * 255 + (2^16 * (sums 2 / (2 * kBarBlurRadius + 1)) +
        (2^8 * (sums 1 / (2 * kBarBlurRadius + 1)) + sums 0 / (2 * kBarBlurRadius + 1))) := by
  have hmean : ∀ c, BitVec.ofInt 32 ((sums c : ℤ).tdiv (2 * kBarBlurRadius + 1)) =
      BitVec.ofNat 32 (sums c / (2 * kBarBlurRadius + 1)) := by
    intro c
    rw [← BitVec.ofInt_natCast]
    rfl
  unfold meanWord
  dsimp only
  rw [hmean, hmean, hmean]
  have h0 := hsums 0
  have h1 := hsums 1
  have h2 := hsums 2
  generalize sums 0 / (2 * kBarBlurRadius + 1) = m0 at *
  generalize sums 1 / (2 * kBarBlurRadius + 1) = m1 at *
  generalize sums 2 / (2 * kBarBlurRadius + 1) = m2 at *
  rw [BitVec.toNat_or, BitVec.toNat_or, BitVec.toNat_or, BitVec.toNat_shiftLeft,
    BitVec.toNat_shiftLeft, BitVec.toNat_ofNat, BitVec.toNat_ofNat, BitVec.toNat_ofNat,
    Nat.shiftLeft_eq, Nat.shiftLeft_eq, Nat.mod_eq_of_lt (by omega : m0 < 2^32),
    Nat.mod_eq_of_lt (by omega : m1 < 2^32), Nat.mod_eq_of_lt (by omega : m2 < 2^32),
    Nat.mod_eq_of_lt (by omega), Nat.mod_eq_of_lt (by omega), Nat.mul_comm m1, Nat.mul_comm m2]
  have hlow := Nat.two_pow_add_eq_or_of_lt (i := 8) (b := m0) (by omega) m1
  have hmid := Nat.two_pow_add_eq_or_of_lt (i := 16) (b := 2^8 * m1 + m0) (by omega) m2
  have hhigh := Nat.two_pow_add_eq_or_of_lt (i := 24) (b := 2^16 * m2 + (2^8 * m1 + m0))
    (by omega) 255
  rw [hhigh, hmid, hlow, Nat.or_assoc, Nat.or_assoc, Nat.or_comm m0, Nat.or_assoc,
    ← Nat.or_assoc (2^8 * m1), Nat.or_comm (2^8 * m1), Nat.or_assoc]
  rfl

/-- Bytes side by side are taken apart. -/
theorem bytes_apart {m0 m1 m2 : ℕ} (h0 : m0 ≤ 255) (h1 : m1 ≤ 255) (h2 : m2 ≤ 255) :
    (2^24 * 255 + (2^16 * m2 + (2^8 * m1 + m0))) / 2^0 % 256 = m0 ∧
      (2^24 * 255 + (2^16 * m2 + (2^8 * m1 + m0))) / 2^8 % 256 = m1 ∧
      (2^24 * 255 + (2^16 * m2 + (2^8 * m1 + m0))) / 2^16 % 256 = m2 ∧
      (2^24 * 255 + (2^16 * m2 + (2^8 * m1 + m0))) / 2^24 % 256 = 255 := by
  omega

/-- The channels of the means' word are the means, under a full alpha. -/
theorem channel_meanWord {sums : Fin 3 → ℕ}
    (hsums : ∀ c, sums c / (2 * kBarBlurRadius + 1) ≤ 255) :
    (∀ c : Fin 3, channel (meanWord fun c => sums c) c = sums c / (2 * kBarBlurRadius + 1)) ∧
      channel (meanWord fun c => sums c) 3 = 255 := by
  obtain ⟨h0, h1, h2, h3⟩ := bytes_apart (hsums 0) (hsums 1) (hsums 2)
  rw [← toNat_meanWord hsums] at h0 h1 h2 h3
  refine ⟨fun c => ?_, (channel_eq _ 3).trans h3⟩
  rw [channel_eq]
  have hc : c = 0 ∨ c = 1 ∨ c = 2 := by
    revert c
    decide
  rcases hc with rfl | rfl | rfl
  · exact h0
  · exact h1
  · exact h2

/-! ## A pass -/

/-- The channel of a line's places. -/
def lineChannel (words : ℕ → BitVec 32) (start step c j : ℕ) : ℕ :=
  channel (words (start + j * step)) c

/-- The sums over the window about a place of a line. -/
def lineSums (words : ℕ → BitVec 32) (start length step i : ℕ) (c : Fin 3) : ℕ :=
  windowSum kBarBlurRadius length (lineChannel words start step c) i

section Lines

variable {size : ℕ} {words : ℕ → BitVec 32} {start length step : ℕ}

/-- A place of a line in the array is read. -/
theorem readLine (words : ℕ → BitVec 32) (hsize : ∀ j < length, start + j * step < size)
    (hint : (length - 1) * step < 2^31) {j : ℕ} (hj : j < length) :
    intIndex (j * step : ℕ) = .ok (j * step) ∧
      readWord size words (start + j * step) = .ok (words (start + j * step)) := by
  have hle : j * step ≤ (length - 1) * step := Nat.mul_le_mul_right _ (by omega)
  exact ⟨intIndex_of_lt (by omega), if_pos (hsize j hj)⟩

/-- The first loop sums the window about the first place. -/
theorem sumSteps (hsize : ∀ j < length, start + j * step < size)
    (hint : (length - 1) * step < 2^31) (hlength : 0 < length) :
    (List.range (2 * kBarBlurRadius + 1)).foldlM (sumStep size words start length step)
      (fun _ => 0) = .ok fun c => (lineSums words start length step 0 c : ℤ) := by
  have hstep : ∀ k < 2 * kBarBlurRadius + 1, ∀ sum : Sums,
      (∀ c, sum c = (∑ j ∈ Finset.range k,
        lineChannel words start step c (clamped kBarBlurRadius length 0 j) : ℕ)) →
      ∃ sum', sumStep size words start length step sum k = .ok sum' ∧
        ∀ c, sum' c = (∑ j ∈ Finset.range (k + 1),
          lineChannel words start step c (clamped kBarBlurRadius length 0 j) : ℕ) := by
    intro k _ sum hsum
    have hplace : (if (k : ℤ) - kBarBlurRadius < 0 then 0
        else if (length : ℤ) ≤ k - kBarBlurRadius then length - 1 else k - kBarBlurRadius : ℤ) =
          (clamped kBarBlurRadius length 0 k : ℕ) := by
      unfold clamped
      omega
    obtain ⟨hindex, hread⟩ := readLine words hsize hint
      (clamped_lt (r := kBarBlurRadius) hlength k)
    unfold sumStep
    dsimp only
    rw [hplace, ← Int.natCast_mul, hindex, ok_bind, hread]
    refine ⟨_, rfl, fun c => ?_⟩
    rw [hsum c, Finset.sum_range_succ, Int.natCast_add]
    rfl
  obtain ⟨sum, hloop, hinv⟩ := foldlM_range_rule
    (fun k (sum : Sums) => ∀ c, sum c = (∑ j ∈ Finset.range k,
      lineChannel words start step c (clamped kBarBlurRadius length 0 j) : ℕ))
    (s := fun _ => 0) (fun c => rfl) hstep
  rw [hloop]
  exact congrArg Except.ok (funext hinv)

/-- A pass of the second loop writes the mean at its place, and has the sums of the next. -/
theorem boxStep_ok (hsize : ∀ j < length, start + j * step < size)
    (hint : (length - 1) * step < 2^31) {i : ℕ} (hi : i < length) (res : ℕ → BitVec 32) :
    boxStep size words start length step
        (res, fun c => (lineSums words start length step i c : ℤ)) i =
      .ok (Function.update res (start + i * step)
          (meanWord fun c => (lineSums words start length step i c : ℤ)),
        fun c => (lineSums words start length step (i + 1) c : ℤ)) := by
  obtain ⟨hindex, -⟩ := readLine words hsize hint hi
  -- Both ends of the window are places of the line.
  obtain ⟨haddIndex, hadd⟩ := readLine words hsize hint
    (j := min (i + kBarBlurRadius + 1) (length - 1)) (by omega)
  obtain ⟨hdropIndex, hdrop⟩ := readLine words hsize hint
    (j := min (i - kBarBlurRadius) (length - 1)) (by omega)
  have haddAt : (if (length : ℤ) ≤ i + kBarBlurRadius + 1 then length - 1
      else i + kBarBlurRadius + 1 : ℤ) = (min (i + kBarBlurRadius + 1) (length - 1) : ℕ) := by
    omega
  have hdropAt : (if (i : ℤ) - kBarBlurRadius < 0 then 0 else i - kBarBlurRadius : ℤ) =
      (min (i - kBarBlurRadius) (length - 1) : ℕ) := by
    omega
  have hwrite : writeWord size res (start + i * step)
      (meanWord fun c => (lineSums words start length step i c : ℤ)) =
        .ok (Function.update res (start + i * step)
          (meanWord fun c => (lineSums words start length step i c : ℤ))) := if_pos (hsize i hi)
  -- The sums move on by the word behind the window and the first of it.
  have hnext : ∀ c : Fin 3, (lineSums words start length step i c : ℤ) +
      ((channel (words (start + min (i + kBarBlurRadius + 1) (length - 1) * step)) c : ℤ) -
        channel (words (start + min (i - kBarBlurRadius) (length - 1) * step)) c) =
      lineSums words start length step (i + 1) c := by
    intro c
    have h := windowSum_succ kBarBlurRadius length i (lineChannel words start step c)
    unfold lineSums
    unfold lineChannel at h ⊢
    omega
  unfold boxStep
  dsimp only
  rw [← Int.natCast_mul, hindex, ok_bind, hwrite, ok_bind, haddAt, ← Int.natCast_mul, haddIndex,
    ok_bind, hadd, ok_bind, hdropAt, ← Int.natCast_mul, hdropIndex, ok_bind, hdrop, ok_bind]
  rw [funext hnext]

/-- The word that a pass writes at a place of a line. -/
def lineMean (words : ℕ → BitVec 32) (start length step j : ℕ) : BitVec 32 :=
  meanWord fun c => (lineSums words start length step j c : ℤ)

/-- Each colour of a mean is the mean of that colour over the window, and the mean is opaque. -/
theorem channel_lineMean (words : ℕ → BitVec 32) (start step : ℕ) {j : ℕ} (hj : j < length) :
    (∀ c : Fin 3, channel (lineMean words start length step j) c =
      windowMean kBarBlurRadius length (lineChannel words start step c) j) ∧
      channel (lineMean words start length step j) 3 = 255 :=
  channel_meanWord fun _ => windowMean_le hj fun _ _ => channel_le _ _

/-- A line is written whole, and nothing else. -/
theorem boxLine_ok (words : ℕ → BitVec 32) {lineStep line : ℕ}
    (hsize : ∀ j < length, line * lineStep + j * step < size)
    (hint : (length - 1) * step < 2^31) (hline : line * lineStep < 2^31) (hlength : 0 < length)
    (hstep : 0 < step) (res : ℕ → BitVec 32) :
    ∃ res', boxLine size words length step lineStep res line = .ok res' ∧
      (∀ j < length, res' (line * lineStep + j * step) =
        lineMean words (line * lineStep) length step j) ∧
      ∀ k, (∀ j < length, k ≠ line * lineStep + j * step) → res' k = res k := by
  -- Before place `i` the sums are those of its window, and the places before it are written.
  obtain ⟨s, hloop, -, hmeans, hrest⟩ := foldlM_range_rule
    (f := boxStep size words (line * lineStep) length step) (n := length)
    (s := (res, fun c => (lineSums words (line * lineStep) length step 0 c : ℤ)))
    (fun i s => s.2 = (fun c => (lineSums words (line * lineStep) length step i c : ℤ)) ∧
      (∀ j < i, s.1 (line * lineStep + j * step) =
        lineMean words (line * lineStep) length step j) ∧
      ∀ k, (∀ j < length, k ≠ line * lineStep + j * step) → s.1 k = res k)
    ⟨rfl, fun j hj => absurd hj (Nat.not_lt_zero j), fun _ _ => rfl⟩ (by
      rintro i hi ⟨res', sum⟩ ⟨rfl, hmeans, hrest⟩
      refine ⟨_, boxStep_ok hsize hint hi res', rfl, fun j hj => ?_, fun k hk => ?_⟩
      · dsimp only
        -- The new place, or one that was written before.
        by_cases hji : j = i
        · rw [hji, Function.update_self]
          rfl
        · have hne : j * step ≠ i * step := by
            rw [Ne, Nat.mul_left_inj (by omega)]
            exact hji
          rw [Function.update_of_ne (by omega)]
          exact hmeans j (by omega)
      · dsimp only
        rw [Function.update_of_ne (hk i hi)]
        exact hrest k hk)
  refine ⟨s.1, ?_, hmeans, hrest⟩
  unfold boxLine
  rw [← Int.natCast_mul, intIndex_of_lt hline, ok_bind, sumSteps hsize hint hlength, ok_bind, hloop,
    ok_bind]

/-- A pass writes every line. -/
theorem box_ok (words : ℕ → BitVec 32) (size length lines step lineStep : ℕ)
    (hsize : ∀ line < lines, ∀ j < length, line * lineStep + j * step < size)
    (hint : (length - 1) * step < 2^31) (hlines : (lines - 1) * lineStep < 2^31)
    (hlength : 0 < length) (hstep : 0 < step)
    (hapart : ∀ line < lines, ∀ line' < lines, ∀ j < length, ∀ j' < length,
      line * lineStep + j * step = line' * lineStep + j' * step → line = line')
    (res : ℕ → BitVec 32) :
    ∃ res', box size words res length lines step lineStep = .ok res' ∧
      ∀ line < lines, ∀ j < length, res' (line * lineStep + j * step) =
        lineMean words (line * lineStep) length step j := by
  -- The lines so far are written; no line has a place of another.
  obtain ⟨res', hloop, hmeans⟩ := foldlM_range_rule
    (f := boxLine size words length step lineStep) (n := lines) (s := res)
    (fun n res' => ∀ line < n, ∀ j < length, res' (line * lineStep + j * step) =
      lineMean words (line * lineStep) length step j)
    (fun line hline => absurd hline (Nat.not_lt_zero line)) (by
      intro n hn res' hmeans
      have hline : n * lineStep ≤ (lines - 1) * lineStep := Nat.mul_le_mul_right _ (by omega)
      obtain ⟨res'', hres'', hnew, hrest⟩ := boxLine_ok words (hsize n hn) hint
        (by omega) hlength hstep res'
      refine ⟨res'', hres'', fun line hlt j hj => ?_⟩
      by_cases hln : line = n
      · rw [hln]
        exact hnew j hj
      · rw [hrest _ fun j' hj' heq => hln
          (hapart line (by omega) n hn j hj j' hj' heq)]
        exact hmeans line (by omega) j hj)
  exact ⟨res', hloop, hmeans⟩

end Lines

/-! ## Rounds -/

/-- A channel of an array of words in rows of `w`. -/
def picture (words : ℕ → BitVec 32) (w c : ℕ) : Picture := fun x y => channel (words (y * w + x)) c

section Rounds

variable {w h : ℕ} {words : ℕ → BitVec 32}

/-- The pass along the rows. -/
theorem box_rows (words : ℕ → BitVec 32) (hw : 0 < w) (hwidth : w < 2^31)
    (hint : (h - 1) * w < 2^31) (res : ℕ → BitVec 32) :
    ∃ res', box (w * h) words res w h 1 w = .ok res' ∧ ∀ x < w, ∀ y < h, ∀ c : Fin 3,
      picture res' w c x y = rowMeans kBarBlurRadius w (picture words w c) x y := by
  obtain ⟨res', hbox, hmeans⟩ := box_ok words (w * h) w h 1 w
    (fun y hy x hx => by
      rw [Nat.mul_one]
      exact place_lt hx hy)
    (by omega) hint hw Nat.one_pos
    (fun y hy y' hy' x hx x' hx' heq => by
      rw [Nat.mul_one, Nat.mul_one] at heq
      exact (place_inj hx hx' heq).1) res
  refine ⟨res', hbox, fun x hx y hy c => ?_⟩
  have h := hmeans y hy x hx
  rw [Nat.mul_one] at h
  unfold picture
  rw [h, (channel_lineMean words _ 1 hx).1 c]
  refine windowMean_congr hx fun j hj => ?_
  unfold lineChannel
  rw [Nat.mul_one]

/-- The pass along the columns. -/
theorem box_columns (words : ℕ → BitVec 32) (hw : 0 < w) (hh : 0 < h) (hwidth : w < 2^31)
    (hint : (h - 1) * w < 2^31) (res : ℕ → BitVec 32) :
    ∃ res', box (w * h) words res h w w 1 = .ok res' ∧ ∀ x < w, ∀ y < h,
      (∀ c : Fin 3, picture res' w c x y =
        columnMeans kBarBlurRadius h (picture words w c) x y) ∧ picture res' w 3 x y = 255 := by
  obtain ⟨res', hbox, hmeans⟩ := box_ok words (w * h) h w w 1
    (fun x hx y hy => by
      rw [Nat.mul_one, Nat.add_comm]
      exact place_lt hx hy)
    hint (by omega) hh hw
    (fun x hx x' hx' y hy y' hy' heq => by
      rw [Nat.mul_one, Nat.mul_one, Nat.add_comm, Nat.add_comm x'] at heq
      exact (place_inj hx hx' heq).2) res
  refine ⟨res', hbox, fun x hx y hy => ?_⟩
  have h := hmeans x hx y hy
  rw [Nat.mul_one, Nat.add_comm] at h
  unfold picture
  rw [h]
  obtain ⟨hcolors, halpha⟩ := channel_lineMean words x w hy
  refine ⟨fun c => ?_, halpha⟩
  rw [hcolors c]
  refine windowMean_congr hy fun j hj => ?_
  unfold lineChannel
  rw [Nat.add_comm]

/-- Rounds of the two passes blur every colour channel. -/
theorem rounds_ok (hw : 0 < w) (hh : 0 < h) (hwidth : w < 2^31) (hint : (h - 1) * w < 2^31)
    (work temp : ℕ → BitVec 32) (rounds : ℕ) :
    Safe ((List.range rounds).foldlM (fun (s : (ℕ → BitVec 32) × (ℕ → BitVec 32)) _ => do
        let temp ← box (w * h) s.1 s.2 w h 1 w
        let work ← box (w * h) temp s.1 h w w 1
        .ok (work, temp)) (work, temp))
      (fun s => ∀ x < w, ∀ y < h, (∀ c : Fin 3, picture s.1 w c x y =
        blur kBarBlurRadius w h rounds (picture work w c) x y) ∧
        (0 < rounds → picture s.1 w 3 x y = 255)) := by
  refine foldlM_range_rule (fun n (s : (ℕ → BitVec 32) × (ℕ → BitVec 32)) => ∀ x < w, ∀ y < h,
    (∀ c : Fin 3, picture s.1 w c x y = blur kBarBlurRadius w h n (picture work w c) x y) ∧
      (0 < n → picture s.1 w 3 x y = 255)) ?_ ?_
  · exact fun x hx y hy => ⟨fun c => rfl, fun h => absurd h (Nat.lt_irrefl 0)⟩
  · intro n hn s hblur
    obtain ⟨temp', htemp, hrows⟩ := box_rows s.1 hw hwidth hint s.2
    obtain ⟨work', hwork, hcolumns⟩ := box_columns temp' hw hh hwidth hint s.1
    refine ⟨(work', temp'), ?_, fun x hx y hy => ⟨fun c => ?_, fun _ => (hcolumns x hx y hy).2⟩⟩
    · rw [htemp, ok_bind, hwork, ok_bind]
    · rw [(hcolumns x hx y hy).1 c]
      refine windowMean_congr hy fun y' hy' => ?_
      rw [hrows x hx y' hy' c]
      exact windowMean_congr hx fun x' hx' => (hblur x' hx' y' hy').1 c

end Rounds

/-! ## The copies -/

/-- A loop that copies rows to rows of `w` words without padding. -/
theorem copyRows_ok {size n : ℕ} (w size' : ℕ) (words' : ℕ → BitVec 32) (start : ℕ → ℕ)
    {body : (ℕ → BitVec 32) → ℕ → Access (ℕ → BitVec 32)}
    (hbody : ∀ y < n, ∀ words,
      body words y = copyWords size words (y * w) size' words' (start y) w)
    (hsize : n * w ≤ size) (hstart : ∀ y < n, start y + w ≤ size') (words : ℕ → BitVec 32) :
    Safe ((List.range n).foldlM body words)
      (fun out => ∀ y < n, ∀ x < w, out (y * w + x) = words' (start y + x)) := by
  refine foldlM_range_rule
    (fun m (out : ℕ → BitVec 32) => ∀ y < m, ∀ x < w, out (y * w + x) = words' (start y + x)) ?_ ?_
  · exact fun y hy => absurd hy (Nat.not_lt_zero y)
  · intro m hm out hout
    -- Row `m` ends in the new array, so all of it is copied.
    have hin : m * w + w ≤ size := by
      rw [← Nat.succ_mul]
      exact Nat.le_trans (Nat.mul_le_mul_right _ hm) hsize
    refine ⟨_, (hbody m hm out).trans (if_pos ⟨hin, hstart m hm⟩), fun y hy x hx => ?_⟩
    by_cases hym : y = m
    · rw [hym, if_pos (by omega), Nat.add_sub_cancel_left]
    · have hbefore : y * w + w ≤ m * w := by
        rw [← Nat.succ_mul]
        exact Nat.mul_le_mul_right _ (by omega)
      rw [if_neg (by omega)]
      exact hout y (by omega) x hx

/-- Rectangles of the same points are one, when they have points. -/
theorem Rect.eq_of_mem_iff {r s : Rect} (hr : 0 < r.width ∧ 0 < r.height)
    (hs : 0 < s.width ∧ 0 < s.height) (h : ∀ x y, r.Mem x y ↔ s.Mem x y) : r = s := by
  -- Each has the other's first and last points.
  have h1 := (h r.x r.y).1
  have h2 := (h (r.x + r.width - 1) (r.y + r.height - 1)).1
  have h3 := (h s.x s.y).2
  have h4 := (h (s.x + s.width - 1) (s.y + s.height - 1)).2
  unfold Rect.Mem at h1 h2 h3 h4
  have hx : r.x = s.x := by omega
  have hy : r.y = s.y := by omega
  have hwidth : r.width = s.width := by omega
  have hheight : r.height = s.height := by omega
  calc r = ⟨r.x, r.y, r.width, r.height⟩ := rfl
    _ = ⟨s.x, s.y, s.width, s.height⟩ := by rw [hx, hy, hwidth, hheight]
    _ = s := rfl

/-- The rows that are blurred: the bar with its margin, and what its blur reaches above it. -/
def sourceRows (height : ℕ) : ℕ := min height 94

/-- The bar of a screen whose sizes are those of an `int`. -/
theorem taskbarBarRect_eq {width height : ℕ} (hwidth : width < 2^31) (hheight : height < 2^31) :
    taskbarBarRect width height = ⟨12, height - 64, width - 24, 52⟩ := by
  have hint : int32 width = width := int32_of_fits ⟨by omega, by omega⟩
  have hint' : int32 height = height := int32_of_fits ⟨by omega, by omega⟩
  unfold taskbarBarRect
  rw [hint, hint']
  unfold kTaskbarMargin kTaskbarHeight
  rw [Rect.mk.injEq]
  exact ⟨rfl, by omega, by omega, rfl⟩

/-- On a screen of at least 64 rows the blur reads at least 64 rows and no more than there are. -/
theorem sourceRows_bounds {height : ℕ} (h : 64 ≤ height) :
    64 ≤ sourceRows height ∧ sourceRows height ≤ height := by
  unfold sourceRows
  omega

section Source

variable [Ui] [LawfulRects] {width height : ℕ}

/-- The blur reads the lowest rows of the screen, over its whole width. -/
theorem blurSource_eq (hwidth : 25 ≤ width) (hheight : 64 ≤ height) (hwidth' : width < 2^31)
    (hheight' : height < 2^31) :
    (blurSource width height).empty = false ∧
      blurSource width height = ⟨0, height - sourceRows height, width, sourceRows height⟩ := by
  have hint : int32 width = width := int32_of_fits ⟨by omega, by omega⟩
  have hint' : int32 height = height := int32_of_fits ⟨by omega, by omega⟩
  -- The source has the points of the screen's last rows.
  have hmem : ∀ x y, (blurSource width height).Mem x y ↔
      Rect.Mem ⟨0, height - sourceRows height, width, sourceRows height⟩ x y := by
    intro x y
    unfold blurSource
    dsimp only
    rw [LawfulRects.mem_intersect]
    unfold Rect.Mem taskbarBarRect sourceRows
    dsimp only
    rw [hint, hint']
    unfold kTaskbarMargin kTaskbarHeight kBarBlurRadius
    omega
  obtain ⟨hrows, hrows'⟩ := sourceRows_bounds hheight
  have hempty : (blurSource width height).empty = false :=
    empty_of_mem ((hmem 0 (height - sourceRows height)).2 (by
      unfold Rect.Mem
      dsimp only
      omega))
  refine ⟨hempty, Rect.eq_of_mem_iff ?_ ⟨?_, ?_⟩ hmem⟩
  · have hpos := mt (LawfulRects.empty_iff (blurSource width height)).2
      (by rw [hempty]; exact Bool.false_ne_true)
    omega
  · dsimp only
    omega
  · dsimp only
    omega

/-- The blur of a wallpaper whose sizes are those of an `int`, in natural numbers. -/
theorem blurBarBackdrop_eq (background : DesktopBackground) (arrays : BlurArrays)
    (hwidth : 25 ≤ background.width) (hheight : 64 ≤ background.height)
    (hwidth' : background.width < 2^31) (hheight' : background.height < 2^31) :
    blurBarBackdrop background (some arrays) = (do
      let w := background.width
      let h := sourceRows background.height
      let work ← (List.range h).foldlM (fun work y => do
        let start ← intIndex (y * w : ℕ)
        copyWords (w * h) work start (w * background.height) background.pixels
          ((background.height - h + y) * w % 2^32) w) arrays.work
      let s ← (List.range 3).foldlM (fun s _ => do
        let temp ← box (w * h) s.1 s.2 w h 1 w
        let work ← box (w * h) temp s.1 h w w 1
        .ok (work, temp)) (work, arrays.temp)
      let out ← (List.range 52).foldlM (fun out y => do
        let start ← intIndex (y * (w - 24) : ℕ)
        let place ← intIndex ((h - 64 + y) * w + 12 : ℕ)
        copyWords ((w - 24) * 52) out start (w * h) s.1 place (w - 24)) arrays.out
      .ok (some ⟨out, taskbarBarRect background.width background.height⟩)) := by
  obtain ⟨hempty, hsource⟩ := blurSource_eq hwidth hheight hwidth' hheight'
  obtain ⟨hrows, hrows'⟩ := sourceRows_bounds hheight
  have hbar := taskbarBarRect_eq hwidth' hheight'
  have hbarEmpty : (taskbarBarRect background.width background.height).empty = false := by
    rw [Bool.eq_false_iff, Ne, LawfulRects.empty_iff, hbar]
    dsimp only
    omega
  unfold blurBarBackdrop
  dsimp only
  rw [if_neg (by rw [hempty, hbarEmpty]; decide), hsource, hbar]
  -- The three indices of the copies are natural numbers; the first one wraps.
  have hcopied : ∀ y : ℕ, u32 (((background.height : ℤ) - sourceRows background.height + y) *
      background.width + 0) =
        (background.height - sourceRows background.height + y) * background.width % 2^32 := by
    intro y
    rw [Int.add_zero, show ((background.height : ℤ) - sourceRows background.height + y) =
      (background.height - sourceRows background.height + y : ℕ) by omega, ← Int.natCast_mul,
      u32_natCast]
  have hstart : ∀ y : ℕ, (y : ℤ) * ((background.width : ℤ) - 24) =
      (y * (background.width - 24) : ℕ) := by
    intro y
    rw [Int.natCast_mul, Int.natCast_sub (by omega)]
    rfl
  have hplace : ∀ y : ℕ, ((background.height : ℤ) - 64 -
      (background.height - sourceRows background.height) + y) * background.width + (12 - 0) =
        ((sourceRows background.height - 64 + y) * background.width + 12 : ℕ) := by
    intro y
    have hrow : (background.height : ℤ) - 64 - (background.height - sourceRows background.height) +
        y = (sourceRows background.height - 64 + y : ℕ) := by
      omega
    rw [hrow, ← Int.natCast_mul]
    rfl
  have hrest : ((background.width : ℤ) - 24).toNat = background.width - 24 := by omega
  simp only [Int.toNat_natCast, hcopied, hstart, hplace, hrest, ← Int.natCast_mul]
  rfl

/-- A channel of the copy that is blurred. The index of a row in the wallpaper wraps. -/
def copied (background : DesktopBackground) (c : ℕ) : Picture := fun x y =>
  channel (background.pixels
    ((background.height - sourceRows background.height + y) * background.width % 2^32 + x)) c

/-- What is stored is the bar's part of the blur of the copy. -/
theorem blurBarBackdrop_ok (background : DesktopBackground) (arrays : BlurArrays)
    (hwidth : 25 ≤ background.width) (hheight : 64 ≤ background.height)
    (hwidth' : background.width < 2^31) (hheight' : background.height < 2^31)
    (hint : (sourceRows background.height - 1) * background.width < 2^31) :
    Safe (blurBarBackdrop background (some arrays)) (fun result => ∃ stored, result = some stored ∧
      stored.rect = taskbarBarRect background.width background.height ∧
      ∀ x < background.width - 24, ∀ y < 52,
        (∀ c : Fin 3, picture stored.pixels (background.width - 24) c x y =
          blur kBarBlurRadius background.width (sourceRows background.height) 3
            (copied background c) (12 + x) (sourceRows background.height - 64 + y)) ∧
        picture stored.pixels (background.width - 24) 3 x y = 255) := by
  obtain ⟨hrows, hrows'⟩ := sourceRows_bounds hheight
  rw [blurBarBackdrop_eq background arrays hwidth hheight hwidth' hheight']
  dsimp only
  generalize hw : background.width = w at *
  generalize hh : sourceRows background.height = h at *
  have hlines : ∀ y < h, y * w ≤ (h - 1) * w := fun y hy => Nat.mul_le_mul_right _ (by omega)
  have hrow : ∀ y < h, y * w + w ≤ w * h := fun y hy => by
    rw [← Nat.succ_mul, Nat.mul_comm w h]
    exact Nat.mul_le_mul_right _ hy
  -- The wallpaper's rows come in, the rounds blur them, the bar's part goes out.
  refine (copyRows_ok w (w * background.height) background.pixels _ (fun y hy words => by
    rw [intIndex_of_lt (Nat.lt_of_le_of_lt (hlines y hy) hint), ok_bind])
    (Nat.le_of_eq (Nat.mul_comm _ _)) (fun y hy => ?_) _).bind fun work hwork => ?_
  · have hle : (background.height - h + y) * w + w ≤ w * background.height := by
      rw [← Nat.succ_mul, Nat.mul_comm w]
      exact Nat.mul_le_mul_right _ (by omega)
    have hmod := Nat.mod_le ((background.height - h + y) * w) (2^32)
    omega
  refine (rounds_ok (by omega) (by omega) hwidth' hint work arrays.temp 3).bind fun s hs => ?_
  refine (copyRows_ok (w - 24) (w * h) s.1 (fun y => (h - 64 + y) * w + 12)
    (fun y hy words => ?_) (Nat.le_of_eq (Nat.mul_comm _ _)) (fun y hy => ?_) _).bind
      fun out hout => safe_ok ⟨_, rfl, rfl, fun x hx y hy => ?_⟩
  · have hstart : y * (w - 24) ≤ y * w := Nat.mul_le_mul_left _ (Nat.sub_le _ _)
    have hstart' := hlines y (by omega)
    have hplace := hlines (h - 64 + y + 1) (by omega)
    rw [Nat.succ_mul] at hplace
    rw [intIndex_of_lt (by omega), ok_bind, intIndex_of_lt (by omega), ok_bind]
  · have hplace := hrow (h - 64 + y) (by omega)
    omega
  · have hplace : ∀ c, picture out (w - 24) c x y = picture s.1 w c (12 + x) (h - 64 + y) := by
      intro c
      unfold picture
      rw [hout y hy x hx, Nat.add_assoc]
    obtain ⟨hcolors, halpha⟩ := hs (12 + x) (by omega) (h - 64 + y) (by omega)
    refine ⟨fun c => ?_, (hplace 3).trans (halpha (by decide))⟩
    rw [hplace c, hcolors c]
    refine blur_congr (fun x' hx' y' hy' => ?_) (by omega) (by omega)
    unfold picture copied
    rw [hwork y' hy' x' hx', hw, hh]

/-! ## The whole wallpaper -/

omit [Ui] [LawfulRects] in
/-- Every pixel of the wallpaper has a full alpha. -/
def FullAlpha (background : DesktopBackground) : Prop :=
  ∀ x < background.width, ∀ y < background.height,
    picture background.pixels background.width 3 x y = 255

/-- What is stored is the bar's part of the whole wallpaper's blur, in every channel; the alpha is
full, as the blur's is where the wallpaper's is. -/
def ShowsBlur (background : DesktopBackground) (stored : BarBlur) : Prop :=
  let bar := taskbarBarRect background.width background.height
  stored.rect = bar ∧ ∀ x < bar.width.toNat, ∀ y < bar.height.toNat,
    picture stored.pixels bar.width.toNat 3 x y = 255 ∧
    ∀ c < 4, (c = 3 → FullAlpha background) →
      picture stored.pixels bar.width.toNat c x y =
        blur kBarBlurRadius background.width background.height 3
          (picture background.pixels background.width c) (bar.x.toNat + x) (bar.y.toNat + y)

/-- Every wallpaper of this size is blurred right, whatever the new arrays held. -/
def BlursRight (width height : ℕ) : Prop :=
  ∀ (background : DesktopBackground) (arrays : BlurArrays), background.width = width →
    background.height = height →
    ∃ stored, blurBarBackdrop background (some arrays) = .ok (some stored) ∧
      ShowsBlur background stored

omit [Ui] [LawfulRects] in
/-- Near the bar the blur of the rows around it is that of the wallpaper. -/
theorem blur_source (part p : Picture) {x y : ℕ} (hheight : 64 ≤ height)
    (hpart : ∀ x < width, ∀ y < sourceRows height, part x y = p x (height - sourceRows height + y))
    (hx : x < width) (hy : y < 52) :
    blur kBarBlurRadius width (sourceRows height) 3 part x (sourceRows height - 64 + y) =
      blur kBarBlurRadius width height 3 p x (height - 64 + y) := by
  obtain ⟨hrows, hrows'⟩ := sourceRows_bounds hheight
  have hsource : ∀ x < width, ∀ y < sourceRows height,
      part x y = p (0 + x) (height - sourceRows height + y) := by
    intro x hx y hy
    rw [Nat.zero_add]
    exact hpart x hx y hy
  have hcolumn : Kept 0 width width (3 * kBarBlurRadius) x :=
    ⟨hx, Or.inl rfl, Or.inl (Nat.zero_add width)⟩
  -- The rows are cut above the bar only, further off than the blur reaches.
  have hrow : Kept (height - sourceRows height) (sourceRows height) height (3 * kBarBlurRadius)
      (sourceRows height - 64 + y) := by
    unfold Kept sourceRows kBarBlurRadius
    omega
  rw [blur_crop (Nat.le_of_eq (Nat.zero_add width)) (Nat.le_of_eq (Nat.sub_add_cancel hrows'))
    hsource hcolumn hrow, Nat.zero_add]
  congr 1
  omega

omit [Ui] [LawfulRects] in
/-- What a stored blur shows, with the rectangle and the places written out. -/
theorem showsBlur_iff {background : DesktopBackground} {stored : BarBlur}
    (hwidth : 25 ≤ background.width) (hheight : 64 ≤ background.height)
    (hwidth' : background.width < 2^31) (hheight' : background.height < 2^31) :
    ShowsBlur background stored ↔
      stored.rect = taskbarBarRect background.width background.height ∧
      ∀ x < background.width - 24, ∀ y < 52,
        picture stored.pixels (background.width - 24) 3 x y = 255 ∧
        ∀ c < 4, (c = 3 → FullAlpha background) →
          picture stored.pixels (background.width - 24) c x y =
            blur kBarBlurRadius background.width background.height 3
              (picture background.pixels background.width c) (12 + x)
              (background.height - 64 + y) := by
  have hbarWidth : ((background.width : ℤ) - 24).toNat = background.width - 24 := by omega
  have hbarTop : ((background.height : ℤ) - 64).toNat = background.height - 64 := by omega
  unfold ShowsBlur
  rw [taskbarBarRect_eq hwidth' hheight']
  dsimp only
  rw [hbarWidth, hbarTop]
  exact Iff.rfl

/-- The whole wallpaper's blur is stored, when no index overflows or wraps. -/
theorem blursRight_of_fits (hwidth : 25 ≤ width) (hheight : 64 ≤ height)
    (hint : (sourceRows height - 1) * width < 2^31) (hword : (height - 1) * width < 2^32) :
    BlursRight width height := by
  obtain ⟨hrows, hrows'⟩ := sourceRows_bounds hheight
  have hwidth' : width < 2^31 := by
    have h := Nat.mul_le_mul_right width (by omega : 1 ≤ sourceRows height - 1)
    omega
  have hheight' : height < 2^31 := by
    have h := Nat.mul_le_mul_left (height - 1) hwidth
    omega
  rintro background arrays rfl rfl
  obtain ⟨result, hok, stored, rfl, hrect, hpixels⟩ :=
    blurBarBackdrop_ok background arrays hwidth hheight hwidth' hheight' hint
  refine ⟨stored, hok, (showsBlur_iff hwidth hheight hwidth' hheight').2 ⟨hrect, ?_⟩⟩
  intro x hx y hy
  obtain ⟨hcolors, halpha⟩ := hpixels x hx y hy
  refine ⟨halpha, fun c hc hfull => ?_⟩
  -- A full alpha blurs to a full one; a colour's blur is that of the rows around the bar.
  by_cases hc3 : c = 3
  · subst hc3
    rw [halpha, blur_const (hfull rfl) (by omega) (by omega)]
  · rw [hcolors ⟨c, by omega⟩]
    refine blur_source _ _ hheight (fun x' hx' y' hy' => ?_) (by omega) hy
    have hrow : (background.height - sourceRows background.height + y') * background.width ≤
        (background.height - 1) * background.width := Nat.mul_le_mul_right _ (by omega)
    unfold copied picture
    rw [Nat.mod_eq_of_lt (by omega)]

/-! ## Sizes that are too large -/

/-- Nothing is stored for a size that is no `int`. -/
theorem blurBarBackdrop_none (background : DesktopBackground) (arrays : BlurArrays)
    (h : 2^31 ≤ background.width ∨ 2^31 ≤ background.height) :
    blurBarBackdrop background (some arrays) = .ok none := by
  have hwidth := background.width_lt
  have hheight := background.height_lt
  unfold blurBarBackdrop
  refine if_pos ?_
  -- Too wide, the bar is empty; too high, the source is.
  rcases h with h | h
  · refine Or.inr ((LawfulRects.empty_iff _).2 (Or.inl ?_))
    unfold taskbarBarRect int32 kTaskbarMargin
    dsimp only
    omega
  · refine Or.inl ?_
    by_contra hempty
    have hsize := mt (LawfulRects.empty_iff _).2 hempty
    -- The source would have its first point, which is not on the screen.
    have hfirst : (blurSource background.width background.height).Mem
        (blurSource background.width background.height).x
        (blurSource background.width background.height).y := by
      unfold Rect.Mem
      omega
    have hscreen := ((LawfulRects.mem_intersect _ _ _ _).1 hfirst).2
    unfold Rect.Mem int32 at hscreen
    dsimp only at hscreen
    omega

/-- The copy fails when the index of its last row overflows. -/
theorem blurBarBackdrop_overflow (background : DesktopBackground) (arrays : BlurArrays)
    (hwidth : 25 ≤ background.width) (hheight : 64 ≤ background.height)
    (hwidth' : background.width < 2^31) (hheight' : background.height < 2^31)
    (hint : 2^31 ≤ (sourceRows background.height - 1) * background.width) :
    ∃ fault, blurBarBackdrop background (some arrays) = .error fault := by
  obtain ⟨hrows, -⟩ := sourceRows_bounds hheight
  rw [blurBarBackdrop_eq background arrays hwidth hheight hwidth' hheight']
  have hindex : intIndex ((sourceRows background.height - 1) * background.width : ℕ) =
      .error (.read ((sourceRows background.height - 1) * background.width)) :=
    if_neg (by omega)
  refine error_bind (foldlM_error (i := sourceRows background.height - 1)
    (List.mem_range.2 (by omega)) (fun work => ?_) _)
  rw [hindex]
  exact ⟨_, rfl⟩

/-- When the index of the last row wraps, a black row comes into the blur of a wallpaper that is
white in the rows that are blurred and black above. -/
theorem not_showsBlur_of_wrap {background : DesktopBackground} {arrays : BlurArrays}
    {stored : BarBlur} (hwidth : 25 ≤ background.width) (hheight : 64 ≤ background.height)
    (hwidth' : background.width < 2^31) (hheight' : background.height < 2^31)
    (hint : (sourceRows background.height - 1) * background.width < 2^31)
    (hword : 2^32 ≤ (background.height - 1) * background.width)
    (hpixels : ∀ i, channel (background.pixels i) 0 =
      if (background.height - sourceRows background.height) * background.width ≤ i then 255 else 0)
    (hok : blurBarBackdrop background (some arrays) = .ok (some stored)) :
    ¬ShowsBlur background stored := by
  obtain ⟨hrows, hrows'⟩ := sourceRows_bounds hheight
  obtain ⟨result, hok', stored', rfl, -, hcopy⟩ :=
    blurBarBackdrop_ok background arrays hwidth hheight hwidth' hheight' hint
  obtain rfl : stored = stored' := by
    rw [hok] at hok'
    exact Option.some.inj (Except.ok.inj hok')
  rw [showsBlur_iff hwidth hheight hwidth' hheight']
  rintro ⟨-, hright⟩
  -- The bar's last row is white in the wallpaper's blur, which sees only white rows.
  have hwhite := (hright 0 (by omega) 51 (by decide)).2 0 (by decide) (fun h => nomatch h)
  have hblack := (hcopy 0 (by omega) 51 (by decide)).1 0
  rw [show ((0 : Fin 3) : ℕ) = 0 from rfl] at hblack
  rw [← blur_source (fun _ _ => 255) _ hheight (fun x hx y hy => ?_) (by omega) (by decide),
    blur_const (fun _ _ _ _ => rfl) (by omega) (by omega)] at hwhite
  · have hsplit : (background.height - sourceRows background.height) * background.width +
        (sourceRows background.height - 1) * background.width =
          (background.height - 1) * background.width := by
      rw [← Nat.add_mul]
      congr 1
      omega
    refine absurd (hblack.symm.trans hwhite) (Nat.ne_of_lt ?_)
    refine blur_lt (sourceRows background.height - 1) (fun x hx y hy => channel_le _ _)
      (fun x hx => ?_) (by omega) (by omega) (by omega) (by omega) (by unfold kBarBlurRadius; omega)
    -- The last row is copied from above the rows that are blurred.
    have hlast : background.height - sourceRows background.height +
        (sourceRows background.height - 1) = background.height - 1 := by omega
    unfold copied
    rw [hpixels, hlast, if_neg (by omega)]
    decide
  · unfold picture
    rw [hpixels, if_pos]
    have hrow := Nat.mul_le_mul_right background.width
      (Nat.le_add_right (background.height - sourceRows background.height) y)
    omega

omit [Ui] [LawfulRects] in
/-- A wallpaper that is white in the rows that are blurred and black above. -/
def whiteBelow (width height : ℕ) (hwidth : width < 2^32) (hheight : height < 2^32) :
    DesktopBackground where
  width := width
  height := height
  pixels := fun i => if (height - sourceRows height) * width ≤ i then 0xFFFFFFFF else 0
  width_lt := hwidth
  height_lt := hheight

/-- Where the last row begins past `2^32` words and the box blur's indices fit, some wallpaper is
blurred wrong. -/
theorem not_blursRight_of_wrap (hwidth : 25 ≤ width) (hheight : 64 ≤ height)
    (hwidth' : width < 2^31) (hheight' : height < 2^31)
    (hint : (sourceRows height - 1) * width < 2^31) (hword : 2^32 ≤ (height - 1) * width) :
    ¬BlursRight width height := by
  intro h
  obtain ⟨stored, hok, hright⟩ := h (whiteBelow width height (by omega) (by omega))
    ⟨fun _ => 0, fun _ => 0, fun _ => 0⟩ rfl rfl
  refine not_showsBlur_of_wrap hwidth hheight hwidth' hheight' hint hword (fun i => ?_) hok hright
  unfold whiteBelow
  dsimp only
  split
  · rfl
  · rfl

/-- The picture behind the taskbar is the whole wallpaper's blur for every wallpaper of a size
exactly when the index of the last row is that of an `int` in the rows that are blurred and that of
a `uint32_t` in the wallpaper. -/
theorem blursRight_iff (hwidth : 25 ≤ width) (hheight : 64 ≤ height) (hwidth32 : width < 2^32)
    (hheight32 : height < 2^32) :
    BlursRight width height ↔
      (min height 94 - 1) * width < 2^31 ∧ (height - 1) * width < 2^32 := by
  constructor
  · intro h
    obtain ⟨stored, hok, -⟩ := h (whiteBelow width height hwidth32 hheight32)
      ⟨fun _ => 0, fun _ => 0, fun _ => 0⟩ rfl rfl
    -- A size that is no `int` stores nothing, and an index that overflows fails.
    have hints : width < 2^31 ∧ height < 2^31 := by
      by_contra hlarge
      have hsize : 2^31 ≤ width ∨ 2^31 ≤ height := by omega
      rw [blurBarBackdrop_none _ _ hsize] at hok
      cases hok
    obtain ⟨hwidth', hheight'⟩ := hints
    have hint : (sourceRows height - 1) * width < 2^31 := by
      by_contra hover
      obtain ⟨fault, herror⟩ :=
        blurBarBackdrop_overflow (whiteBelow width height hwidth32 hheight32) _ hwidth hheight
          hwidth' hheight' (Nat.le_of_not_lt hover)
      rw [herror] at hok
      cases hok
    refine ⟨hint, ?_⟩
    by_contra hwrap
    exact not_blursRight_of_wrap hwidth hheight hwidth' hheight' hint (Nat.le_of_not_lt hwrap) h
  · rintro ⟨hint, hword⟩
    exact blursRight_of_fits hwidth hheight hint hword

end Source

/-- The condition holds of a common size. -/
theorem blursRight_common : @BlursRight plainUi 1920 1080 :=
  (@blursRight_iff plainUi plainUi_lawful 1920 1080 (by decide) (by decide) (by decide)
    (by decide)).2 ⟨by decide, by decide⟩

/-- The last row of a wallpaper of `65536` by `65537` pixels starts at index `2^32`. -/
theorem not_blursRight_wrapped : ¬@BlursRight plainUi 65536 65537 :=
  @not_blursRight_of_wrap plainUi plainUi_lawful 65536 65537 (by decide) (by decide)
    (by decide) (by decide) (by decide) (by decide)

end IUserApps.Compositor
