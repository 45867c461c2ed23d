import IUserApps.Loader.CopyReloc

/-!
# What relocation leaves

The relocation phase ends exactly when each relocation can be applied, which does not depend on the
memory (`relocateAll_ok_iff`). Where no byte is the target of two relocations, it leaves in the word
of each relocation the value that the ABI gives it: the base and the addend for `R_X86_64_RELATIVE`,
the address of the first definition and the addend for the relocations of a symbol, and the addend
alone for a weak symbol that nothing defines. What no relocation is for is left as it was.
-/

namespace IUserApps.Loader

open Loops Stores

/-- The symbol of a relocation can be looked up. -/
def HasSymbol (object : Object) (rela : Rela64) : Prop :=
  object.symtab ≠ none ∧ rela.symbol < object.symbolCount.toNat

/-- A relocation can be applied. -/
def Resolves (objects : List Object) (i : ℕ) (object : Object) (rela : Rela64) : Prop :=
  let sym := object.symbol rela.symbol
  match rela.type with
  | .none | .relative => True
  | .word64 | .globDat | .jumpSlot =>
    HasSymbol object rela ∧
      (lookupSymbol objects (object.symbolName sym) ≠ none ∨ sym.weak = true)
  | .copy =>
    HasSymbol object rela ∧
      lookupSymbolExcluding objects (object.symbolName sym) (some i) ≠ none
  | .other => False

/-- The relocations that store one word. -/
def StoresWord (rela : Rela64) : Prop :=
  rela.type = .relative ∨ rela.type = .word64 ∨ rela.type = .globDat ∨ rela.type = .jumpSlot

/-- The word that a relocation stores. -/
def wordValue (objects : List Object) (object : Object) (rela : Rela64) : U64 :=
  if rela.type = .relative then object.base + rela.addend
  else
    (lookupSymbol objects (object.symbolName (object.symbol rela.symbol))).elim 0 Prod.snd +
      rela.addend

/-- A memory holds a word, its lowest byte first. -/
def HoldsWord (memory : Memory) (target value : U64) : Prop :=
  ∀ k < 8, memory (target + BitVec.ofNat 64 k) = wordByte value k

/-- The eight bytes say what the word is. -/
theorem HoldsWord.unique {memory : Memory} {target value value' : U64}
    (h : HoldsWord memory target value) (h' : HoldsWord memory target value') : value = value' := by
  refine BitVec.eq_of_getLsbD_eq fun i hi => ?_
  have hbyte : wordByte value (i / 8) = wordByte value' (i / 8) := by
    rw [← h (i / 8) (by omega), h' (i / 8) (by omega)]
  have hbit := congrArg (fun b : Byte => b.getLsbD (i % 8)) hbyte
  have hin : i % 8 < 8 := Nat.mod_lt i (by decide)
  have hplace : 8 * (i / 8) + i % 8 = i := Nat.div_add_mod i 8
  simpa [wordByte, BitVec.getLsbD_setWidth, BitVec.getLsbD_ushiftRight, hin, hplace] using hbit

variable {objects : List Object}

/-- Whether a relocation is applied does not depend on the memory. -/
theorem applyRelocation_ok_iff (i : ℕ) (object : Object) (memory : Memory) (rela : Rela64) :
    (∃ memory', applyRelocation objects i object memory rela = .ok memory') ↔
      Resolves objects i object rela := by
  have hsymbol : HasSymbol object rela ↔
      ¬(object.symtab = none ∨ object.symbolCount.toNat ≤ rela.symbol) := by
    unfold HasSymbol
    rw [not_or, Nat.not_le]
  unfold applyRelocation Resolves
  dsimp only
  cases rela.type with
  | none => exact iff_of_true ⟨memory, rfl⟩ trivial
  | relative => exact iff_of_true ⟨_, rfl⟩ trivial
  | word64 | globDat | jumpSlot =>
    dsimp only
    rw [hsymbol]
    split
    · next h => exact iff_of_false (fun ⟨_, hr⟩ => nomatch hr) fun hs => hs.1 h
    · next h =>
      cases hl : lookupSymbol objects (object.symbolName (object.symbol rela.symbol)) with
      | some found => exact iff_of_true ⟨_, rfl⟩ ⟨h, Or.inl (Option.some_ne_none found)⟩
      | none =>
        cases hw : (object.symbol rela.symbol).weak with
        | true => exact iff_of_true ⟨_, rfl⟩ ⟨h, Or.inr rfl⟩
        | false => exact iff_of_false (fun ⟨_, hr⟩ => nomatch hr) fun hs => by simp at hs
  | copy =>
    dsimp only
    rw [hsymbol]
    split
    · next h => exact iff_of_false (fun ⟨_, hr⟩ => nomatch hr) fun hs => hs.1 h
    · next h =>
      cases hl : lookupSymbolExcluding objects (object.symbolName (object.symbol rela.symbol))
          (some i) with
      | some found => exact iff_of_true ⟨_, rfl⟩ ⟨h, Option.some_ne_none found⟩
      | none => exact iff_of_false (fun ⟨_, hr⟩ => nomatch hr) fun hs => hs.2 rfl
  | other => exact iff_of_false (fun ⟨_, hr⟩ => nomatch hr) id

/-- An object's two tables are one list of relocations. -/
theorem relocateObject_eq {entry : Object × ℕ} (hfresh : entry.1.relocated = false)
    (memory : Memory) :
    relocateObject objects memory entry =
      entry.1.relocations.foldlM (applyRelocation objects entry.2 entry.1) memory := by
  unfold relocateObject Object.relocations
  rw [hfresh, if_neg Bool.false_ne_true, List.foldlM_append]

/-- The phase ends exactly when every relocation of every object can be applied. -/
theorem relocateAll_ok_iff (hfresh : ∀ object ∈ objects, object.relocated = false)
    (memory : Memory) :
    (∃ final, relocateAll objects memory = .ok final) ↔
      ∀ entry ∈ objects.zipIdx, ∀ rela ∈ entry.1.relocations,
        Resolves objects entry.2 entry.1 rela := by
  refine foldlM_ok_iff (fun entry hentry memory => ?_) memory
  rw [relocateObject_eq (hfresh _ (List.fst_mem_of_mem_zipIdx hentry))]
  exact foldlM_ok_iff (fun rela _ memory => applyRelocation_ok_iff entry.2 entry.1 memory rela)
    memory

/-- The stores of a relocation that stores one word. -/
theorem relocationStores_word (i : ℕ) (object : Object) {rela : Rela64} (h : StoresWord rela) :
    relocationStores objects i object rela =
      wordStores (object.base + rela.offset) (wordValue objects object rela) := by
  unfold relocationStores wordValue
  dsimp only
  rcases h with htype | hsymbol
  · rw [htype, if_pos rfl]
  · have hne : rela.type ≠ .relative := by
      rcases hsymbol with h | h | h <;> rw [h] <;> decide
    rw [if_neg hne]
    rcases hsymbol with h | h | h <;> rw [h] <;> dsimp only
    all_goals
      cases lookupSymbol objects (object.symbolName (object.symbol rela.symbol)) with
      | some found => rfl
      | none => rfl

/-- When the phase ends and no byte is the target of two relocations, the word of each relocation of
a word has the value that the ABI gives it, and what is the target of no relocation is as it was. -/
theorem relocateAll_words {memory final : Memory}
    (hfresh : ∀ object ∈ objects, object.relocated = false)
    (hrun : relocateAll objects memory = .ok final)
    (hdisjoint : TargetsDisjoint objects) :
    (∀ entry ∈ objects.zipIdx, ∀ rela ∈ entry.1.relocations, StoresWord rela →
      HoldsWord final (entry.1.base + rela.offset) (wordValue objects entry.1 rela)) ∧
    ∀ a, a ∉ (phaseStores objects).map Store.target → final a = memory a := by
  rw [relocateAll_ok hfresh hrun]
  refine ⟨?_, fun a ha => run_of_notMem ha memory⟩
  intro entry hentry rela hrela hword k hk
  have hstore : .put (entry.1.base + rela.offset + BitVec.ofNat 64 k)
      (wordByte (wordValue objects entry.1 rela) k) ∈
        relocationStores objects entry.2 entry.1 rela := by
    rw [relocationStores_word _ _ hword]
    exact List.mem_map.2 ⟨k, List.mem_range.2 hk, rfl⟩
  have hobject : .put (entry.1.base + rela.offset + BitVec.ofNat 64 k)
      (wordByte (wordValue objects entry.1 rela) k) ∈ objectStores objects entry :=
    List.mem_flatMap.2 ⟨rela, hrela, hstore⟩
  exact run_of_put hdisjoint (List.mem_flatMap.2 ⟨entry, hentry, hobject⟩) memory

/-- The relocation phase ends exactly when every relocation can be applied. Then, where no byte is
the target of two, each word has the value that the ABI gives it, and the rest is as it was. -/
theorem relocation_exact (hfresh : ∀ object ∈ objects, object.relocated = false)
    (memory : Memory) :
    ((∃ final, relocateAll objects memory = .ok final) ↔
      ∀ entry ∈ objects.zipIdx, ∀ rela ∈ entry.1.relocations,
        Resolves objects entry.2 entry.1 rela) ∧
    ∀ final, relocateAll objects memory = .ok final → TargetsDisjoint objects →
      (∀ entry ∈ objects.zipIdx, ∀ rela ∈ entry.1.relocations, StoresWord rela →
        HoldsWord final (entry.1.base + rela.offset) (wordValue objects entry.1 rela)) ∧
      ∀ a, a ∉ (phaseStores objects).map Store.target → final a = memory a :=
  ⟨relocateAll_ok_iff hfresh memory,
    fun _ hrun hdisjoint => relocateAll_words hfresh hrun hdisjoint⟩

/-- The library's pointer, and a byte beside it. -/
theorem relocation_exact_library : ∃ final,
    relocateAll (programAndLibrary 0x2008) (fun _ => 7) = .ok final ∧
      HoldsWord final (LIBRARY_BASE + 0x2008) (LIBRARY_BASE + 0x2100) ∧
      final (LIBRARY_BASE + 0x2010) = 7 := by
  obtain ⟨final, hrun⟩ : ∃ final,
      relocateAll (programAndLibrary 0x2008) (fun _ => 7) = .ok final := ⟨_, rfl⟩
  obtain ⟨hwords, hrest⟩ := (relocation_exact (by decide) (fun _ => 7)).2 final hrun (by decide)
  have hword := hwords (oneReloc LIBRARY_BASE ⟨1, false, 1, 0x2000, 8⟩ ⟨0x2008, .relative, 0, 0x2100⟩, 1)
    (by simp [programAndLibrary]) ⟨0x2008, .relative, 0, 0x2100⟩ (List.mem_singleton_self _)
    (Or.inl rfl)
  exact ⟨final, hrun, hword, hrest _ (by decide)⟩

end IUserApps.Loader
