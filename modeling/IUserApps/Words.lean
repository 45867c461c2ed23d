import Mathlib.Algebra.Ring.Int.Defs
import Mathlib.Algebra.Ring.Nat
import Mathlib.Data.Int.Notation
import Mathlib.Logic.Function.Basic
import Mathlib.Tactic.Common

/-!
# Machine integers

Positions, counts and sizes are natural numbers and integers here. Where the source's own width
decides what happens, the functions below say what a fixed-width variable then holds: `u32`, `u64`,
`int32` and `int64` are the conversions to `uint32_t`, `size_t` and to a two's complement `int` of 32
and `long` of 64 bits.
-/

namespace IUserApps

/-- A byte, `char` or `unsigned char`; comparisons use the unsigned value. -/
abbrev Byte := BitVec 8

/-- The bytes of an ASCII text. -/
def ascii (text : String) : List Byte := text.toList.map fun c => BitVec.ofNat 8 c.toNat

/-- The value that a `uint32_t` holds of an integer. -/
def u32 (z : ℤ) : ℕ := (z % 2^32).toNat

/-- The value that a `size_t` holds of an integer. -/
def u64 (z : ℤ) : ℕ := (z % 2^64).toNat

/-- The value that a 32-bit `int` holds of an integer. -/
def int32 (z : ℤ) : ℤ := (z + 2^31) % 2^32 - 2^31

/-- The value that a 64-bit `long` holds of an integer. -/
def int64 (z : ℤ) : ℤ := (z + 2^63) % 2^64 - 2^63

/-- An integer that a 32-bit `int` holds unchanged. -/
def FitsInt (z : ℤ) : Prop := -2^31 ≤ z ∧ z < 2^31

instance (z : ℤ) : Decidable (FitsInt z) := inferInstanceAs (Decidable (_ ∧ _))

/-- A natural number below `2^32` is its own `uint32_t`. -/
theorem u32_of_lt {z : ℤ} (h0 : 0 ≤ z) (h : z < 2^32) : (u32 z : ℤ) = z := by
  unfold u32
  omega

/-- A natural number's last 32 bits. -/
theorem u32_natCast (n : ℕ) : u32 n = n % 2^32 := by
  unfold u32
  omega

/-- An `int` keeps the integers in its range. -/
theorem int32_of_fits {z : ℤ} (h : FitsInt z) : int32 z = z := by
  unfold int32
  obtain ⟨h0, h1⟩ := h
  omega

end IUserApps
