import IUserApps.Words
import Mathlib.Data.Nat.Bitwise
import Mathlib.Tactic.NormNum

/-!
# Program files

A program or library file as the loader reads it (`ld-instantos/src/main.cpp`): the fields of its
ELF header, its program headers, and the tables that its dynamic section leads to. The structures of
`common/elf.hpp` are taken as values: a field holds what the loader reads there, and a field that is
only compared with constants is an enumeration. Addresses, sizes and offsets are 64-bit words and
wrap around.

The string, symbol, hash and relocation tables are read at addresses relative to the load base, and
nothing writes to them.
-/

namespace IUserApps.Loader

/-- A 64-bit word. -/
abbrev U64 := BitVec 64

/-- The bytes of a string before its terminating zero. -/
abbrev CStr := List Byte

/-- The bytes of a page. -/
def PAGE_SIZE : U64 := 4096
/-- Where the first library is put. -/
def LIBRARY_BASE : U64 := 0x0000580000000000
/-- The distance from one library's place to the next. -/
def LIBRARY_STRIDE : U64 := 0x0000000004000000
/-- The objects a program has at most. -/
def MAX_OBJECTS : ℕ := 16
/-- The segments of an object at most. -/
def MAX_SEGMENTS : ℕ := 16
/-- The libraries an object names at most. -/
def MAX_NEEDED : ℕ := 16

/-- `sizeof(Elf::Header64)` and its like, as the ELF-64 format fixes them. -/
def sizeofHeader64 : U64 := 64
/-- The bytes of a program header. -/
def sizeofProgramHeader64 : U64 := 56
/-- The bytes of a relocation. -/
def sizeofRela64 : U64 := 24

/-! ## Rounding -/

/-- The multiple of a power of two at or below a value. -/
def alignDown (value alignment : U64) : U64 := value &&& ~~~(alignment - 1)

/-- The multiple of a power of two at or above a value. -/
def alignUp (value alignment : U64) : U64 := (value + alignment - 1) &&& ~~~(alignment - 1)

/-- Clearing the low `k` bits rounds down to a multiple of `2^k`. -/
theorem alignDown_twoPow (value : U64) {k : ℕ} (hk : k < 64) :
    (alignDown value (BitVec.twoPow 64 k)).toNat = value.toNat / 2^k * 2^k := by
  have hshift : alignDown value (BitVec.twoPow 64 k) = (value >>> k) <<< k := by
    have hmask : BitVec.twoPow 64 k - 1 = BitVec.ofNat 64 (2^k - 1) := by
      apply BitVec.eq_of_toNat_eq
      have hlt : 2^k < 2^64 := Nat.pow_lt_pow_right (by decide) hk
      have hpos : 0 < 2^k := Nat.two_pow_pos k
      have hone : (1 : U64).toNat = 1 := rfl
      rw [BitVec.toNat_sub, BitVec.toNat_twoPow, BitVec.toNat_ofNat, hone, Nat.mod_eq_of_lt hlt]
      omega
    unfold alignDown
    rw [hmask]
    apply BitVec.eq_of_getLsbD_eq
    intro i hi
    rw [BitVec.getLsbD_and, BitVec.getLsbD_not, BitVec.getLsbD_ofNat, BitVec.getLsbD_shiftLeft,
      BitVec.getLsbD_ushiftRight, Nat.testBit_two_pow_sub_one]
    rcases Nat.lt_or_ge i k with h | h
    · simp [hi, h]
    · have hadd : k + (i - k) = i := by omega
      simp [hi, hadd, Nat.not_lt.2 h]
  rw [hshift, BitVec.toNat_shiftLeft, BitVec.toNat_ushiftRight, Nat.shiftRight_eq_div_pow,
    Nat.shiftLeft_eq]
  have hle : value.toNat / 2^k * 2^k ≤ value.toNat := Nat.div_mul_le_self _ _
  exact Nat.mod_eq_of_lt (Nat.lt_of_le_of_lt hle value.isLt)

/-- Rounding down to a page. -/
theorem alignDown_page (value : U64) :
    (alignDown value PAGE_SIZE).toNat = value.toNat / 4096 * 4096 :=
  alignDown_twoPow value (k := 12) (by decide)

/-- Rounding up to a page, in 64 bits. -/
theorem alignUp_page (value : U64) :
    (alignUp value PAGE_SIZE).toNat = (value.toNat + 4095) % 2^64 / 4096 * 4096 := by
  have hsum : (value + PAGE_SIZE - 1).toNat = (value.toNat + 4095) % 2^64 := by
    unfold PAGE_SIZE
    bv_omega
  have h := alignDown_page (value + PAGE_SIZE - 1)
  rw [hsum] at h
  exact h

/-! ## ELF structures -/

/-- The types of a file. -/
inductive ElfType | executable | dynamic | other
deriving DecidableEq, Repr

/-- The fields of an ELF header. -/
structure Header64 where
  /-- Bytes 0 to 6 of `ident`: the magic number, 64 bits, little-endian, the current version. -/
  ident : Bool
  /-- `machine` is `MachineX86_64`. -/
  machine : Bool
  type : ElfType
  entry : U64
  programHeaderOffset : U64
  programHeaderEntrySize : BitVec 16
  programHeaderCount : BitVec 16
deriving DecidableEq, Repr

/-- The types of a program header. -/
inductive ProgramType | load | dynamic | phdr | other
deriving DecidableEq, Repr

/-- A program header, as far as the loader reads it. -/
structure ProgramHeader64 where
  type : ProgramType
  /-- `FlagRead`, `FlagWrite` and `FlagExecute`. -/
  flagRead : Bool
  flagWrite : Bool
  flagExecute : Bool
  offset : U64
  virtualAddress : U64
  fileSize : U64
  memorySize : U64
deriving DecidableEq, Repr

/-- The tags that the loader tells apart; it stops at `DynamicNull`. -/
inductive DynamicTag
  | needed | strTab | symTab | hash | rela | relaSize | relaEnt | jmpRel | pltRelSize
  | initArray | initArraySize | init | rel | relSize | relEnt | other
deriving DecidableEq, Repr

/-- An entry of the dynamic section. -/
structure DynamicEntry64 where
  tag : DynamicTag
  /-- `value` and `pointer`, the one word of the union. -/
  value : U64
deriving DecidableEq, Repr

/-- A symbol, as far as the loader reads it. -/
structure Symbol64 where
  /-- Where its name starts in the string table. -/
  name : BitVec 32
  /-- Its binding is 2. -/
  weak : Bool
  sectionIndex : BitVec 16
  value : U64
  size : U64
deriving DecidableEq, Repr

/-- The types of a relocation. -/
inductive RelocationType | none | relative | word64 | globDat | jumpSlot | copy | other
deriving DecidableEq, Repr

/-- A relocation. -/
structure Rela64 where
  offset : U64
  type : RelocationType
  symbol : ℕ
  addend : U64
deriving DecidableEq, Repr

/-- What a file holds at addresses relative to its load base. -/
structure Tables where
  /-- The dynamic section, up to its null entry. -/
  dynamic : U64 → List DynamicEntry64
  string : U64 → CStr
  /-- The second word of a hash table, the number of symbols. -/
  symbolCount : U64 → BitVec 32
  symbol : U64 → ℕ → Symbol64
  rela : U64 → ℕ → Rela64

/-- A file in memory. -/
structure Image where
  size : U64
  byte : U64 → Byte
  header : Header64
  /-- The program headers that start at `programHeaderOffset`. -/
  programHeader : ℕ → ProgramHeader64
  tables : Tables

end IUserApps.Loader
