import IUserApps.Loader.Objects
import IUserApps.Stores

/-!
# Relocation

The relocation phase of `ld_main`: the relocations of every object of the table, in the order of the
table. Symbols are looked up in all objects, in the same order. The tables are read through the
objects' files, so that the stores of the relocations do not change them.

A look-up also returns the place of the object that defines the symbol, which is no part of the
source. The `relocated` flag that each call of `relocateObject` sets is that of its own object, which
the loop comes to once.
-/

namespace IUserApps.Loader

open Loops Stores

/-- A symbol of the object's table. -/
def Object.symbol (object : Object) (i : ℕ) : Symbol64 :=
  object.image.tables.symbol (object.symtab.getD 0 - object.base) i

/-- The name of a symbol. -/
def Object.symbolName (object : Object) (sym : Symbol64) : CStr :=
  object.string (object.strtab.getD 0 + sym.name.setWidth 64)

/-- Where the object defines a name, by the first of its symbols that does. -/
def Object.definition (object : Object) (name : CStr) : Option U64 :=
  if object.symtab = none ∨ object.strtab = none then none
  else
    (((List.range' 1 (object.symbolCount.toNat - 1)).map object.symbol).find? fun sym =>
      decide (sym.sectionIndex ≠ 0) && decide (sym.name ≠ 0) &&
        cstrEqual name (object.symbolName sym)).map fun sym => object.base + sym.value

/-- The first object that defines a name, but for one that is left out, and where. -/
def lookupSymbolExcluding (objects : List Object) (name : CStr) (exclude : Option ℕ) :
    Option (ℕ × U64) :=
  objects.zipIdx.findSome? fun (object, j) =>
    if some j = exclude then none
    else (object.definition name).map fun value => (j, value)

/-- The first object that defines a symbol, and the symbol's address. -/
def lookupSymbol (objects : List Object) (name : CStr) : Option (ℕ × U64) :=
  lookupSymbolExcluding objects name none

/-- A byte of a word. -/
def wordByte (value : U64) (k : ℕ) : Byte := (value >>> (8 * k)).setWidth 8

/-- Stores a word, its lowest byte first. -/
def storeWord (memory : Memory) (target value : U64) : Memory :=
  (List.range 8).foldl (fun memory k =>
    Function.update memory (target + BitVec.ofNat 64 k) (wordByte value k)) memory

/-- Copies bytes from one place to another, one after another. -/
def copyBytes (memory : Memory) (dst src size : U64) : Memory :=
  (List.range size.toNat).foldl (fun memory k =>
    Function.update memory (dst + BitVec.ofNat 64 k) (memory (src + BitVec.ofNat 64 k))) memory

/-- Applies one relocation of the object at `i`. -/
def applyRelocation (objects : List Object) (i : ℕ) (object : Object) (memory : Memory)
    (rela : Rela64) : Except String Memory :=
  let target := object.base + rela.offset
  match rela.type with
  | .none => .ok memory
  | .relative => .ok (storeWord memory target (object.base + rela.addend))
  | .word64 | .globDat | .jumpSlot =>
    if object.symtab = none ∨ object.symbolCount.toNat ≤ rela.symbol then
      .error "bad symbol relocation"
    else
      let sym := object.symbol rela.symbol
      match lookupSymbol objects (object.symbolName sym) with
      | some (_, value) => .ok (storeWord memory target (value + rela.addend))
      | none =>
        if sym.weak then .ok (storeWord memory target (0 + rela.addend))
        else .error "unresolved symbol"
  | .copy =>
    if object.symtab = none ∨ object.symbolCount.toNat ≤ rela.symbol then
      .error "bad symbol relocation"
    else
      let sym := object.symbol rela.symbol
      match lookupSymbolExcluding objects (object.symbolName sym) (some i) with
      | some (_, source) => .ok (copyBytes memory target source sym.size)
      | none => .error "unresolved copy symbol"
  | .other => .error "unsupported relocation"

/-- The entries of a relocation table. -/
def Object.relaTable (object : Object) (table count : U64) : List Rela64 :=
  (List.range count.toNat).map (object.image.tables.rela (table - object.base))

/-- The relocations of an object, in the order in which they are applied. -/
def Object.relocations (object : Object) : List Rela64 :=
  object.relaTable object.rela object.relaCount ++
    object.relaTable object.jmprel object.jmprelCount

/-- Applies the relocations of an object, once. -/
def relocateObject (objects : List Object) (memory : Memory) (entry : Object × ℕ) :
    Except String Memory :=
  if entry.1.relocated then .ok memory
  else do
    let memory ← (entry.1.relaTable entry.1.rela entry.1.relaCount).foldlM
      (applyRelocation objects entry.2 entry.1) memory
    (entry.1.relaTable entry.1.jmprel entry.1.jmprelCount).foldlM
      (applyRelocation objects entry.2 entry.1) memory

/-- The relocation of the first `n` objects of the table. -/
def relocateFirst (objects : List Object) (n : ℕ) (memory : Memory) : Except String Memory :=
  (objects.zipIdx.take n).foldlM (relocateObject objects) memory

/-- The relocation phase. -/
def relocateAll (objects : List Object) (memory : Memory) : Except String Memory :=
  objects.zipIdx.foldlM (relocateObject objects) memory

/-! ## The stores of the phase -/

/-- The stores of a word. -/
def wordStores (target value : U64) : List (Store U64 Byte) :=
  (List.range 8).map fun k => .put (target + BitVec.ofNat 64 k) (wordByte value k)

/-- The stores of a copy. -/
def copyStores (dst src size : U64) : List (Store U64 Byte) :=
  (List.range size.toNat).map fun k => .move (dst + BitVec.ofNat 64 k) (src + BitVec.ofNat 64 k)

/-- The stores of a relocation, which do not depend on the memory. -/
def relocationStores (objects : List Object) (i : ℕ) (object : Object) (rela : Rela64) :
    List (Store U64 Byte) :=
  let target := object.base + rela.offset
  let sym := object.symbol rela.symbol
  match rela.type with
  | .none | .other => []
  | .relative => wordStores target (object.base + rela.addend)
  | .word64 | .globDat | .jumpSlot =>
    match lookupSymbol objects (object.symbolName sym) with
    | some (_, value) => wordStores target (value + rela.addend)
    | none => wordStores target (0 + rela.addend)
  | .copy =>
    match lookupSymbolExcluding objects (object.symbolName sym) (some i) with
    | some (_, source) => copyStores target source sym.size
    | none => []

/-- The stores of an object's relocations. -/
def objectStores (objects : List Object) (entry : Object × ℕ) : List (Store U64 Byte) :=
  entry.1.relocations.flatMap (relocationStores objects entry.2 entry.1)

/-- The stores of the relocation phase up to the object at `n`. -/
def storesUpTo (objects : List Object) (n : ℕ) : List (Store U64 Byte) :=
  (objects.zipIdx.take n).flatMap (objectStores objects)

/-- The stores of the relocation phase. -/
def phaseStores (objects : List Object) : List (Store U64 Byte) :=
  objects.zipIdx.flatMap (objectStores objects)

/-- A word is stored byte after byte. -/
theorem storeWord_eq_run (memory : Memory) (target value : U64) :
    storeWord memory target value = run memory (wordStores target value) := by
  unfold storeWord wordStores run
  rw [List.foldl_map]
  rfl

/-- A copy is stored byte after byte. -/
theorem copyBytes_eq_run (memory : Memory) (dst src size : U64) :
    copyBytes memory dst src size = run memory (copyStores dst src size) := by
  unfold copyBytes copyStores run
  rw [List.foldl_map]
  rfl

/-- A relocation that is applied makes its stores. -/
theorem applyRelocation_ok {objects : List Object} {i : ℕ} {object : Object} {memory memory' : Memory}
    {rela : Rela64} (h : applyRelocation objects i object memory rela = .ok memory') :
    memory' = run memory (relocationStores objects i object rela) := by
  unfold applyRelocation at h
  unfold relocationStores
  dsimp only at h ⊢
  cases htype : rela.type with
  | none =>
    rw [htype] at h
    cases h
    rfl
  | relative =>
    rw [htype] at h
    cases h
    rw [storeWord_eq_run]
  | word64 | globDat | jumpSlot =>
    rw [htype] at h
    dsimp only at h ⊢
    split at h
    · cases h
    · split at h
      · cases h
        rw [storeWord_eq_run]
      · split at h
        · cases h
          rw [storeWord_eq_run]
        · cases h
  | copy =>
    rw [htype] at h
    dsimp only at h ⊢
    split at h
    · cases h
    · split at h
      · cases h
        rw [copyBytes_eq_run]
      · cases h
  | other =>
    rw [htype] at h
    cases h

/-- Relocations that are applied in turn make their stores in turn. -/
theorem applyRelocations_ok {objects : List Object} {i : ℕ} {object : Object}
    {relocations : List Rela64} {memory memory' : Memory}
    (h : relocations.foldlM (applyRelocation objects i object) memory = .ok memory') :
    memory' = run memory (relocations.flatMap (relocationStores objects i object)) := by
  refine foldlM_rule (fun done (m : Memory) =>
    m = run memory (done.flatMap (relocationStores objects i object))) rfl ?_ h
  rintro done rela s s' - rfl hstep
  rw [applyRelocation_ok hstep, List.flatMap_append, List.flatMap_singleton, run_append]

/-- An object that is relocated for the first time. -/
theorem relocateObject_ok {objects : List Object} {memory memory' : Memory} {entry : Object × ℕ}
    (hfresh : entry.1.relocated = false) (h : relocateObject objects memory entry = .ok memory') :
    memory' = run memory (objectStores objects entry) := by
  unfold relocateObject at h
  rw [hfresh, if_neg Bool.false_ne_true] at h
  dsimp only [bind, Except.bind] at h
  split at h
  · cases h
  next middle hmiddle =>
    unfold objectStores Object.relocations
    rw [List.flatMap_append, run_append, ← applyRelocations_ok hmiddle, applyRelocations_ok h]

/-- The first objects of the table, none of them relocated before. -/
theorem relocateFirst_ok {objects : List Object} (hfresh : ∀ o ∈ objects, o.relocated = false)
    {n : ℕ} {memory memory' : Memory} (h : relocateFirst objects n memory = .ok memory') :
    memory' = run memory (storesUpTo objects n) := by
  refine foldlM_rule (fun done (m : Memory) =>
    m = run memory (done.flatMap (objectStores objects))) rfl ?_ h
  rintro done entry s s' hentry rfl hstep
  have hobject : entry.1 ∈ objects := by
    have hmem := List.mem_of_mem_take hentry
    exact List.fst_mem_of_mem_zipIdx hmem
  rw [relocateObject_ok (hfresh _ hobject) hstep, List.flatMap_append, List.flatMap_singleton,
    run_append]

/-- The whole phase is that of all objects. -/
theorem relocateAll_eq (objects : List Object) (memory : Memory) :
    relocateAll objects memory = relocateFirst objects objects.length memory := by
  unfold relocateAll relocateFirst
  rw [List.take_of_length_le (by rw [List.length_zipIdx])]

/-- The stores of all objects, one object after another. -/
theorem phaseStores_eq (objects : List Object) :
    phaseStores objects = storesUpTo objects objects.length := by
  unfold phaseStores storesUpTo
  rw [List.take_of_length_le (by rw [List.length_zipIdx])]

/-- The phase makes its stores. -/
theorem relocateAll_ok {objects : List Object} (hfresh : ∀ o ∈ objects, o.relocated = false)
    {memory memory' : Memory} (h : relocateAll objects memory = .ok memory') :
    memory' = run memory (phaseStores objects) := by
  rw [relocateAll_eq] at h
  rw [phaseStores_eq]
  exact relocateFirst_ok hfresh h

/-- When the phase ends so has the relocation of each of its objects. -/
theorem relocateFirst_of_all {objects : List Object} {memory memory' : Memory}
    (h : relocateAll objects memory = .ok memory') (n : ℕ) :
    ∃ middle, relocateFirst objects n memory = .ok middle := by
  unfold relocateAll at h
  rw [← List.take_append_drop n objects.zipIdx, List.foldlM_append] at h
  unfold relocateFirst
  cases hfirst : (objects.zipIdx.take n).foldlM (relocateObject objects) memory with
  | error e =>
    rw [hfirst] at h
    cases h
  | ok middle => exact ⟨middle, rfl⟩

end IUserApps.Loader
