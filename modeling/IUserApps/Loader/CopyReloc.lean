import IUserApps.Loader.Relocate

/-!
# Copy relocations

A copy relocation puts the bytes of another object's variable into a slot of the object that imports
it, and the slot should hold what the variable holds once its object is relocated. The phase goes
through the table from the main program on, so that the main program copies before the libraries are
relocated. `copiesHold_iff` says when the slots are right all the same.
-/

namespace IUserApps.Loader

open Stores

/-- A copy relocation of the object at `i`, after the relocations `before`, of a symbol that the
object at `j` defines at `source`. -/
structure IsCopy (objects : List Object) (i : ℕ) (object : Object) (before : List Rela64)
    (rela : Rela64) (j : ℕ) (source : U64) : Prop where
  entry : objects[i]? = some object
  place : ∃ after, object.relocations = before ++ rela :: after
  copy : rela.type = .copy
  defined : lookupSymbolExcluding objects (object.symbolName (object.symbol rela.symbol)) (some i) =
    some (j, source)

/-- The bytes that a copy relocation copies. -/
def copySize (object : Object) (rela : Rela64) : ℕ := (object.symbol rela.symbol).size.toNat

/-- Every slot holds what its variable held when the object that defines it had been relocated. -/
def CopiesHold (objects : List Object) (memory final : Memory) : Prop :=
  ∀ i object before rela j source, IsCopy objects i object before rela j source →
    ∀ middle, relocateFirst objects (j + 1) memory = .ok middle →
      ∀ k < copySize object rela, final (object.base + rela.offset + BitVec.ofNat 64 k) =
        middle (source + BitVec.ofNat 64 k)

/-- The stores that are made before byte `k` of a copy relocation. -/
def storesBefore (objects : List Object) (i : ℕ) (object : Object) (before : List Rela64)
    (rela : Rela64) (k : ℕ) : List (Store U64 Byte) :=
  storesUpTo objects i ++ before.flatMap (relocationStores objects i object) ++
    (relocationStores objects i object rela).take k

/-- No store between the copy of a byte and the end of the relocations of the object that defines
it, whichever comes first, changes that byte of the variable. -/
def SourcesKept (objects : List Object) (memory : Memory) : Prop :=
  ∀ i object before rela j source, IsCopy objects i object before rela j source →
    ∀ k < copySize object rela, Kept memory (storesBefore objects i object before rela k)
      (storesUpTo objects (j + 1)) (source + BitVec.ofNat 64 k)

/-- No byte is the target of two relocations. -/
def TargetsDisjoint (objects : List Object) : Prop :=
  ((phaseStores objects).map Store.target).Nodup

instance (objects : List Object) : Decidable (TargetsDisjoint objects) :=
  inferInstanceAs (Decidable (List.Nodup _))

/-- A list around one of its places. -/
theorem split_at {α : Type*} {xs : List α} {k : ℕ} {x : α} (h : xs[k]? = some x) :
    xs = xs.take k ++ x :: xs.drop (k + 1) := by
  obtain ⟨hk, rfl⟩ := List.getElem?_eq_some_iff.1 h
  rw [← List.drop_eq_getElem_cons hk, List.take_append_drop]

/-- The stores up to an object are the first of the phase. -/
theorem storesUpTo_first (objects : List Object) (n : ℕ) :
    storesUpTo objects n <+: phaseStores objects := by
  refine ⟨(objects.zipIdx.drop n).flatMap (objectStores objects), ?_⟩
  unfold storesUpTo phaseStores
  rw [← List.flatMap_append, List.take_append_drop]

/-- The copy of a byte in the phase. -/
theorem IsCopy.split {objects : List Object} {i j : ℕ} {object : Object} {before : List Rela64}
    {rela : Rela64} {source : U64} (h : IsCopy objects i object before rela j source) {k : ℕ}
    (hk : k < copySize object rela) :
    ∃ after, phaseStores objects = storesBefore objects i object before rela k ++
      .move (object.base + rela.offset + BitVec.ofNat 64 k) (source + BitVec.ofNat 64 k) ::
        after := by
  obtain ⟨relocations, hplace⟩ := h.place
  have hentry : objects.zipIdx[i]? = some (object, i) := by
    rw [List.getElem?_zipIdx, h.entry, Option.map_some, Nat.zero_add]
  -- A copy relocation whose source is defined moves the symbol's bytes in order.
  have hstores : relocationStores objects i object rela =
      copyStores (object.base + rela.offset) source (object.symbol rela.symbol).size := by
    unfold relocationStores
    dsimp only
    rw [h.copy]
    dsimp only
    rw [h.defined]
  have hmove : (relocationStores objects i object rela)[k]? =
      some (.move (object.base + rela.offset + BitVec.ofNat 64 k)
        (source + BitVec.ofNat 64 k)) := by
    rw [hstores]
    unfold copyStores
    unfold copySize at hk
    rw [List.getElem?_map, List.getElem?_range hk]
    rfl
  -- The relocation stands between those before it and those behind it.
  have hobject : objectStores objects (object, i) =
      before.flatMap (relocationStores objects i object) ++
        (relocationStores objects i object rela ++
          relocations.flatMap (relocationStores objects i object)) := by
    unfold objectStores
    rw [hplace, List.flatMap_append, List.flatMap_cons]
  refine ⟨(relocationStores objects i object rela).drop (k + 1) ++
    (relocations.flatMap (relocationStores objects i object) ++
      (objects.zipIdx.drop (i + 1)).flatMap (objectStores objects)), ?_⟩
  have hsplit := split_at hmove
  calc phaseStores objects
      = storesUpTo objects i ++ (objectStores objects (object, i) ++
          (objects.zipIdx.drop (i + 1)).flatMap (objectStores objects)) := by
        unfold phaseStores storesUpTo
        rw [← List.flatMap_cons, ← List.flatMap_append, ← split_at hentry]
    _ = storesUpTo objects i ++ before.flatMap (relocationStores objects i object) ++
          (relocationStores objects i object rela ++
            (relocations.flatMap (relocationStores objects i object) ++
              (objects.zipIdx.drop (i + 1)).flatMap (objectStores objects))) := by
        rw [hobject]
        simp only [List.append_assoc]
    _ = _ := by
        unfold storesBefore
        conv_lhs => rw [hsplit]
        simp only [List.append_assoc, List.cons_append]

/-- When the relocations are applied and no byte is the target of two, every slot is right if and
only if no store between the copy and the relocation of the object that defines the variable changes
what is copied. -/
theorem copiesHold_iff {objects : List Object} {memory final : Memory}
    (hfresh : ∀ object ∈ objects, object.relocated = false)
    (hrun : relocateAll objects memory = .ok final) (hdisjoint : TargetsDisjoint objects) :
    CopiesHold objects memory final ↔ SourcesKept objects memory := by
  have hfinal := relocateAll_ok hfresh hrun
  -- One byte of one slot: what is copied, against what the variable holds in the end.
  have hbyte : ∀ {i object before rela j source},
      IsCopy objects i object before rela j source → ∀ {k}, k < copySize object rela →
      ∀ {middle}, relocateFirst objects (j + 1) memory = .ok middle →
      (final (object.base + rela.offset + BitVec.ofNat 64 k) = middle (source + BitVec.ofNat 64 k) ↔
        Kept memory (storesBefore objects i object before rela k) (storesUpTo objects (j + 1))
          (source + BitVec.ofNat 64 k)) := by
    intro i object before rela j source hcopy k hk middle hmiddle
    obtain ⟨after, hsplit⟩ := hcopy.split hk
    have hnodup := hdisjoint
    unfold TargetsDisjoint at hnodup
    have hext : storesBefore objects i object before rela k <+: phaseStores objects := by
      rw [hsplit]
      exact List.prefix_append _ _
    rw [kept_iff hnodup hext (storesUpTo_first objects (j + 1)),
      relocateFirst_ok hfresh hmiddle]
    rw [hsplit] at hnodup hfinal
    have hslot := run_append_of_nodup hnodup memory
    rw [← hfinal] at hslot
    rw [show final (object.base + rela.offset + BitVec.ofNat 64 k) =
      run memory (storesBefore objects i object before rela k) (source + BitVec.ofNat 64 k)
      from hslot]
  constructor
  · intro hholds i object before rela j source hcopy k hk
    obtain ⟨middle, hmiddle⟩ := relocateFirst_of_all hrun (j + 1)
    exact (hbyte hcopy hk hmiddle).1 (hholds i object before rela j source hcopy middle hmiddle k hk)
  · intro hkept i object before rela j source hcopy middle hmiddle k hk
    exact (hbyte hcopy hk hmiddle).2 (hkept i object before rela j source hcopy k hk)

/-! ### A program and a library -/

/-- An object whose one relocation and one symbol are given; the symbol is called `stdout`. -/
def oneReloc (base : U64) (sym : Symbol64) (rela : Rela64) : Object :=
  let image : Image :=
    { size := 4096
      byte := fun _ => 0
      header := ⟨true, true, .dynamic, 0, 64, 56, 2⟩
      programHeader := fun _ => ⟨.other, false, false, false, 0, 0, 0, 0⟩
      tables :=
        { dynamic := fun _ => []
          string := fun a => if a = 1025 then chars ['s', 't', 'd', 'o', 'u', 't'] else []
          symbolCount := fun _ => 2
          symbol := fun _ i => if i = 1 then sym else ⟨0, false, 0, 0, 0⟩
          rela := fun _ _ => rela } }
  { Object.cleared image with
    base := base, strtab := some (base + 1024), symtab := some (base + 2048), symbolCount := 2,
    rela := base + 3072, relaCount := 1 }

/-- A program with a slot of 8 bytes for `stdout`, and a library that defines it and has a relocation
of a pointer at an offset. -/
def programAndLibrary (offset : U64) : List Object :=
  [oneReloc 0x400000 ⟨1, false, 1, 0x3000, 8⟩ ⟨0x3000, .copy, 1, 0⟩,
   oneReloc LIBRARY_BASE ⟨1, false, 1, 0x2000, 8⟩ ⟨offset, .relative, 0, 0x2100⟩]

/-- A variable that the relocations of its library leave alone is copied as it is. -/
theorem copiesHold_plain : ∃ final, relocateAll (programAndLibrary 0x2008) (fun _ => 7) = .ok final ∧
    CopiesHold (programAndLibrary 0x2008) (fun _ => 7) final := by
  refine ⟨_, rfl, (copiesHold_iff (by decide) rfl (by decide)).2 ?_⟩
  intro i object before rela j source hcopy k hk
  have hext : storesBefore (programAndLibrary 0x2008) i object before rela k <+:
      phaseStores (programAndLibrary 0x2008) := by
    obtain ⟨after, hsplit⟩ := hcopy.split hk
    rw [hsplit]
    exact List.prefix_append _ _
  refine kept_of_notMem hext (storesUpTo_first _ _) ?_ _
  obtain ⟨hentry, ⟨after, hplace⟩, htype, hdefined⟩ := hcopy
  have hmem : rela ∈ object.relocations := by
    rw [hplace]
    exact List.mem_append_right _ List.mem_cons_self
  match i, hentry with
  | 0, hentry =>
    -- The one copy, of the library's variable.
    cases hentry
    obtain rfl : rela = ⟨0x3000, .copy, 1, 0⟩ := List.mem_singleton.1 hmem
    have hsource : some (1, LIBRARY_BASE + 0x2000) = some (j, source) := by
      rw [← hdefined]
      decide
    cases hsource
    have hall : ∀ k < 8, LIBRARY_BASE + 0x2000 + BitVec.ofNat 64 k ∉
        (phaseStores (programAndLibrary 0x2008)).map Store.target := by decide
    exact hall k hk
  | 1, hentry =>
    cases hentry
    obtain rfl : rela = ⟨0x2008, .relative, 0, 0x2100⟩ := List.mem_singleton.1 hmem
    cases htype

/-- A pointer: the program copies it before the library's relocation makes it one. -/
theorem pointer_copiedUnrelocated :
    ¬ ∀ (objects : List Object) (memory final : Memory),
      (∀ object ∈ objects, object.relocated = false) → relocateAll objects memory = .ok final →
      TargetsDisjoint objects → CopiesHold objects memory final := by
  intro hclaim
  have hholds := hclaim (programAndLibrary 0x2000) (fun _ => 0) _ (by decide) rfl (by decide)
  have hcopy : IsCopy (programAndLibrary 0x2000) 0
      (oneReloc 0x400000 ⟨1, false, 1, 0x3000, 8⟩ ⟨0x3000, .copy, 1, 0⟩) []
      ⟨0x3000, .copy, 1, 0⟩ 1 (LIBRARY_BASE + 0x2000) :=
    ⟨rfl, ⟨[], rfl⟩, rfl, by decide⟩
  have hbyte := hholds _ _ _ _ _ _ hcopy _ rfl 1 (by decide)
  exact absurd hbyte (by decide)

end IUserApps.Loader
