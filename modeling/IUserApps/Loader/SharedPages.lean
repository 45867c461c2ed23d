import IUserApps.Layers
import IUserApps.Loader.Bases
import IUserApps.Loader.Init

/-!
# Segments that share pages

`loadObjectFromMemory` maps each segment's pages anew before it copies the segment into them, and
`protectObject` sets the protection of each segment's pages in turn. Segments need not start or end
at a page, so a page can be in two of them although their bytes lie apart: mapping the second clears
what the first has in it, and protecting the second takes what the first was granted. What an
address holds is decided by the last segment over it, in the order of the program headers
(`Layers`), and `segmentsInPlace_iff` says for which images that is right.
-/

namespace IUserApps.Loader

open Layers Loops

/-! ## Protections -/

/-- The protection of each page, by its address. -/
abbrev Protections := U64 → U64

/-- The address of the page that an address is in. -/
def pageOf (address : U64) : U64 := alignDown address PAGE_SIZE

/-- The protections after those of some pages are set. -/
def setProtection (prot : Protections) (address size protection : U64) : Protections :=
  fun page => if page - address < size then protection else prot page

/-- Sets the protection of pages. -/
def protectMemory (kernel : Kernel) (prot : Protections) (address size protection : U64) :
    Except String Protections :=
  if kernel.mprotect address size protection then .ok (setProtection prot address size protection)
  else .error "mprotect failed"

/-- What `protectObject` does to the protections. -/
def protectSegments (kernel : Kernel) (prot : Protections) (object : Object) :
    Except String Protections :=
  object.segments.foldlM
    (fun prot s => protectMemory kernel prot s.address s.size s.protection) prot

/-- The protections after an object's pages are mapped. -/
def mappedProtections (prot : Protections) (object : Object) : Protections :=
  object.segments.foldl (fun prot s =>
    setProtection prot s.address s.size (ProtRead ||| ProtWrite ||| ProtExecute)) prot

/-- A protection has at least the permissions of another. -/
def Allows (protection other : U64) : Prop := other &&& protection = other

/-! ## What is claimed -/

/-- The headers of the segments to load, in their order. -/
def Image.loads (image : Image) : List ProgramHeader64 :=
  ((List.range image.header.programHeaderCount.toNat).map image.programHeader).filter
    fun ph => ph.type = .load

/-- The bytes that two segments ask for lie apart. -/
def Apart (ph ph' : ProgramHeader64) : Prop :=
  ∀ n : ℕ, ¬((ph.virtualAddress.toNat ≤ n ∧ n < ph.virtualAddress.toNat + ph.memorySize.toNat) ∧
    ph'.virtualAddress.toNat ≤ n ∧ n < ph'.virtualAddress.toNat + ph'.memorySize.toNat)

/-- The segments' ranges of bytes do not wrap and do not overlap. -/
structure Image.RangesApart (image : Image) : Prop where
  ends : ∀ ph ∈ image.loads, ph.virtualAddress.toNat + ph.memorySize.toNat ≤ 2^64
  apart : image.loads.Pairwise Apart

/-- The address of a byte of a segment. -/
def byteAddress (loadBase : U64) (ph : ProgramHeader64) (k : ℕ) : U64 :=
  loadBase + ph.virtualAddress + BitVec.ofNat 64 k

/-- The byte at a place of the file, if the file is that long. -/
def Image.fileByte (image : Image) (n : ℕ) : Option Byte :=
  if n < image.size.toNat then some (image.byte (BitVec.ofNat 64 n)) else none

/-- Memory holds a segment: its bytes of the file, and then zeros. -/
structure HoldsSegment (image : Image) (loadBase : U64) (memory : Memory) (ph : ProgramHeader64) :
    Prop where
  file : ∀ k < ph.fileSize.toNat,
    image.fileByte (ph.offset.toNat + k) = some (memory (byteAddress loadBase ph k))
  zeros : ∀ k, ph.fileSize.toNat ≤ k → k < ph.memorySize.toNat →
    memory (byteAddress loadBase ph k) = 0

/-- The pages with bytes of a segment have at least its permissions. -/
def PagesAllow (loadBase : U64) (prot : Protections) (ph : ProgramHeader64) : Prop :=
  ∀ k < ph.memorySize.toNat,
    Allows (prot (pageOf (byteAddress loadBase ph k))) (protectionFromElf ph)

/-- Every segment is held and has its permissions. -/
def SegmentsInPlace (image : Image) (loadBase : U64) (memory : Memory) (prot : Protections) :
    Prop :=
  ∀ ph ∈ image.loads, HoldsSegment image loadBase memory ph ∧ PagesAllow loadBase prot ph

/-- An address in the pages of a segment. -/
def InPages (loadBase : U64) (address : U64) (ph : ProgramHeader64) : Prop :=
  address - mapStart loadBase ph < mapSize loadBase ph

instance (loadBase address : U64) (ph : ProgramHeader64) :
    Decidable (InPages loadBase address ph) := inferInstanceAs (Decidable (_ < _))

/-- The segments do each other no harm: the bytes of each are in the file; a byte that is in the
pages of a later segment is zero; of the segments with a byte in their pages, the last allows what
the byte's own does; and a byte in the pages of none, whose sizes have wrapped then, was as it
should be before. -/
structure SharesPages (image : Image) (loadBase : U64) (memory : Memory) (prot : Protections) :
    Prop where
  inFile : ∀ ph ∈ image.loads, ph.fileSize.toNat = 0 ∨
    ph.offset.toNat + ph.fileSize.toNat ≤ image.size.toNat
  kept : ∀ before ph after, image.loads = before ++ ph :: after →
    ∀ k < ph.fileSize.toNat, ∀ later ∈ after, InPages loadBase (byteAddress loadBase ph k) later →
      image.byte (ph.offset + BitVec.ofNat 64 k) = 0
  allowed : ∀ ph ∈ image.loads, ∀ k < ph.memorySize.toNat,
    ∀ before top after, image.loads = before ++ top :: after →
      InPages loadBase (byteAddress loadBase ph k) top →
      (∀ later ∈ after, ¬InPages loadBase (byteAddress loadBase ph k) later) →
      Allows (protectionFromElf top) (protectionFromElf ph)
  outside : ∀ ph ∈ image.loads, ∀ k < ph.memorySize.toNat,
    (∀ other ∈ image.loads, ¬InPages loadBase (byteAddress loadBase ph k) other) →
      (ph.fileSize.toNat ≤ k → memory (byteAddress loadBase ph k) = 0) ∧
        Allows (prot (pageOf (byteAddress loadBase ph k))) (protectionFromElf ph)

/-! ## The segments as layers -/

variable {image : Image} {loadBase : U64}

/-- What a segment puts at an address: a byte of the file, or the zero of a fresh page. -/
def segmentLayer (image : Image) (loadBase : U64) (ph : ProgramHeader64) (address : U64) :
    Option Byte :=
  if address - (loadBase + ph.virtualAddress) < ph.fileSize then
    some (image.byte (ph.offset + (address - (loadBase + ph.virtualAddress))))
  else if InPages loadBase address ph then some 0
  else none

/-- What `loadSegment` records of a segment. -/
def segmentOf (loadBase : U64) (ph : ProgramHeader64) : Segment :=
  ⟨mapStart loadBase ph, mapSize loadBase ph, protectionFromElf ph⟩

/-- What the first `n` bytes of a copy leave, where `n` is below `2^64`. -/
theorem copied_apply (image : Image) (memory : Memory) (target offset address : U64) {n : ℕ}
    (hn : n < 2^64) : (List.range n).foldl (fun memory k =>
        Function.update memory (target + BitVec.ofNat 64 k)
          (image.byte (offset + BitVec.ofNat 64 k))) memory address =
      if (address - target).toNat < n then image.byte (offset + (address - target))
      else memory address := by
  induction n with
  | zero => rfl
  | succ n ih =>
    rw [List.range_succ, List.foldl_append, List.foldl_cons, List.foldl_nil]
    by_cases haddress : address = target + BitVec.ofNat 64 n
    · have hplace : address - target = BitVec.ofNat 64 n := by
        rw [haddress, BitVec.add_comm, BitVec.add_sub_cancel]
      have hlt : (address - target).toNat < n + 1 := by
        rw [hplace, BitVec.toNat_ofNat]
        omega
      rw [if_pos hlt, haddress, Function.update_self, ← haddress, hplace]
    · have hne : (address - target).toNat ≠ n := by
        rintro rfl
        apply haddress
        rw [BitVec.ofNat_toNat, BitVec.setWidth_eq, BitVec.add_comm, BitVec.sub_add_cancel]
      have hiff : (address - target).toNat < n + 1 ↔ (address - target).toNat < n := by omega
      rw [Function.update_of_ne haddress, ih (by omega)]
      simp only [hiff]

/-- Mapping a segment's pages and filling them lays the segment over what was there. -/
theorem place_eq_lay (memory : Memory) (ph : ProgramHeader64) :
    copyFromImage image (mapMemory memory (mapStart loadBase ph) (mapSize loadBase ph))
        (loadBase + ph.virtualAddress) ph.offset ph.fileSize =
      lay (segmentLayer image loadBase ph) memory := by
  funext address
  have hcopied := copied_apply image (mapMemory memory (mapStart loadBase ph) (mapSize loadBase ph))
    (loadBase + ph.virtualAddress) ph.offset address ph.fileSize.isLt
  simp only [← BitVec.lt_def] at hcopied
  unfold copyFromImage
  rw [hcopied]
  unfold lay segmentLayer
  by_cases hfile : address - (loadBase + ph.virtualAddress) < ph.fileSize
  · rw [if_pos hfile, if_pos hfile]
    rfl
  · rw [if_neg hfile, if_neg hfile]
    have hmap : mapMemory memory (mapStart loadBase ph) (mapSize loadBase ph) address =
        if InPages loadBase address ph then 0 else memory address := rfl
    rw [hmap]
    by_cases hpages : InPages loadBase address ph
    · rw [if_pos hpages, if_pos hpages]
      rfl
    · rw [if_neg hpages, if_neg hpages]
      rfl

/-- One program header of the loop over the segments. -/
theorem loadSegment_laid {kernel : Kernel} {m m' : Mapping} {i : ℕ}
    (h : loadSegment kernel image loadBase m i = .ok m') :
    if (image.programHeader i).type = .load then
      m'.memory = lay (segmentLayer image loadBase (image.programHeader i)) m.memory ∧
        m'.segments = m.segments ++ [segmentOf loadBase (image.programHeader i)]
    else m'.memory = m.memory ∧ m'.segments = m.segments := by
  unfold loadSegment at h
  dsimp only at h
  split at h
  next htype =>
    cases h
    rw [if_neg htype]
    exact ⟨rfl, rfl⟩
  next htype =>
    rw [if_pos (not_not.1 htype)]
    split at h
    · cases h
    · split at h
      · cases h
      · split at h
        · cases h
        · cases h
          exact ⟨place_eq_lay _ _, rfl⟩

/-- After the loop over the segments, memory is under their layers. -/
theorem loadSegments_laid {kernel : Kernel} {memory : Memory} {m : Mapping}
    (h : loadSegments kernel image loadBase memory = .ok m) :
    m.memory = image.loads.foldl (fun memory ph => lay (segmentLayer image loadBase ph) memory)
        memory ∧
      m.segments = image.loads.map (segmentOf loadBase) := by
  refine foldlM_rule (fun done (m : Mapping) =>
    let loads := (done.map image.programHeader).filter fun ph => ph.type = .load
    m.memory = loads.foldl (fun memory ph => lay (segmentLayer image loadBase ph) memory) memory ∧
      m.segments = loads.map (segmentOf loadBase)) ⟨rfl, rfl⟩ ?_ h
  rintro done i m m' - ⟨hmemory, hsegments⟩ hstep
  have hlaid := loadSegment_laid hstep
  dsimp only at hmemory hsegments ⊢
  rw [List.map_append, List.filter_append, List.map_singleton]
  split at hlaid
  next htype =>
    have hself : [image.programHeader i].filter (fun ph => ph.type = .load) =
        [image.programHeader i] := List.filter_eq_self.2 (by simpa using htype)
    rw [hself, List.foldl_append, List.map_append, hlaid.1, hlaid.2, hmemory, hsegments]
    exact ⟨rfl, rfl⟩
  next htype =>
    have hnone : [image.programHeader i].filter (fun ph => ph.type = .load) = [] :=
      List.filter_eq_nil_iff.2 (by simpa using htype)
    rw [hnone, List.append_nil, hlaid.1, hlaid.2]
    exact ⟨hmemory, hsegments⟩

/-- The segments that were loaded have passed the check of their sizes. -/
theorem loads_checked {kernel : Kernel} {memory : Memory} {m : Mapping}
    (h : loadSegments kernel image loadBase memory = .ok m) :
    ∀ ph ∈ image.loads, ph.fileSize ≤ ph.memorySize := by
  intro ph hph
  obtain ⟨hmem, htype⟩ := List.mem_filter.1 hph
  obtain ⟨i, hi, rfl⟩ := List.mem_map.1 hmem
  exact ((loadSegments_ok h).2 i (List.mem_range.1 hi) (of_decide_eq_true htype)).1

/-! ## What an address holds -/

section
variable {ph other : ProgramHeader64} {k : ℕ}

/-- The place of a byte in its segment. -/
theorem byteAddress_sub (loadBase : U64) (ph : ProgramHeader64) (k : ℕ) :
    byteAddress loadBase ph k - (loadBase + ph.virtualAddress) = BitVec.ofNat 64 k := by
  unfold byteAddress
  rw [BitVec.add_comm, BitVec.add_sub_cancel]

/-- A segment puts its bytes of the file in their places. -/
theorem segmentLayer_file (hk : k < ph.fileSize.toNat) :
    segmentLayer image loadBase ph (byteAddress loadBase ph k) =
      some (image.byte (ph.offset + BitVec.ofNat 64 k)) := by
  have hlt : BitVec.ofNat 64 k < ph.fileSize := by
    have hsize := ph.fileSize.isLt
    rw [BitVec.lt_def, BitVec.toNat_ofNat, Nat.mod_eq_of_lt (by omega)]
    exact hk
  unfold segmentLayer
  rw [byteAddress_sub, if_pos hlt]

/-- Past its bytes of the file, a segment puts the zeros of its pages. -/
theorem segmentLayer_zeros (hk : ph.fileSize.toNat ≤ k) (hlt : k < 2^64) :
    segmentLayer image loadBase ph (byteAddress loadBase ph k) =
      if InPages loadBase (byteAddress loadBase ph k) ph then some 0 else none := by
  have hnot : ¬BitVec.ofNat 64 k < ph.fileSize := by
    rw [BitVec.lt_def, BitVec.toNat_ofNat, Nat.mod_eq_of_lt hlt]
    omega
  unfold segmentLayer
  rw [byteAddress_sub, if_neg hnot]

/-- At the bytes of another segment, a segment puts the zeros of its pages. -/
theorem segmentLayer_other (hapart : Apart ph other)
    (hends : ph.virtualAddress.toNat + ph.memorySize.toNat ≤ 2^64)
    (hends' : other.virtualAddress.toNat + other.memorySize.toNat ≤ 2^64)
    (hsizes : other.fileSize ≤ other.memorySize) (hk : k < ph.memorySize.toNat) :
    segmentLayer image loadBase other (byteAddress loadBase ph k) =
      if InPages loadBase (byteAddress loadBase ph k) other then some 0 else none := by
  have hnot : ¬byteAddress loadBase ph k - (loadBase + other.virtualAddress) < other.fileSize := by
    intro hlt
    rw [BitVec.le_def] at hsizes
    rw [BitVec.lt_def] at hlt
    -- In whole numbers, the byte is one of the other segment's.
    have hsame : other.virtualAddress.toNat +
        (byteAddress loadBase ph k - (loadBase + other.virtualAddress)).toNat =
          ph.virtualAddress.toNat + k := by
      generalize hd : (byteAddress loadBase ph k - (loadBase + other.virtualAddress)).toNat = d
        at hlt ⊢
      unfold byteAddress at hd
      rw [BitVec.toNat_sub, BitVec.toNat_add, BitVec.toNat_add, BitVec.toNat_add,
        BitVec.toNat_ofNat] at hd
      have hbase := loadBase.isLt
      have hother := other.virtualAddress.isLt
      omega
    exact hapart (ph.virtualAddress.toNat + k) ⟨⟨by omega, by omega⟩, by omega, by omega⟩
  unfold segmentLayer
  rw [if_neg hnot]

end

/-- A segment's bytes lie apart from those of every other. -/
theorem Image.RangesApart.split (h : image.RangesApart) {before after : List ProgramHeader64}
    {ph : ProgramHeader64} (hloads : image.loads = before ++ ph :: after) :
    ∀ other, other ∈ before ∨ other ∈ after → Apart ph other := by
  have hapart := h.apart
  rw [hloads, List.pairwise_append, List.pairwise_cons] at hapart
  obtain ⟨-, ⟨hafter, -⟩, hbefore⟩ := hapart
  intro other hother n hn
  rcases hother with hmem | hmem
  · exact hbefore other hmem ph List.mem_cons_self n hn.symm
  · exact hafter other hmem n hn

section
variable {before after : List ProgramHeader64} {ph : ProgramHeader64} {k : ℕ}

/-- The other segments put zeros at a segment's bytes, where their pages are. -/
theorem segmentLayer_others (hranges : image.RangesApart)
    (hsizes : ∀ ph ∈ image.loads, ph.fileSize ≤ ph.memorySize)
    (hloads : image.loads = before ++ ph :: after) (hk : k < ph.memorySize.toNat) :
    ∀ other, other ∈ before ∨ other ∈ after →
      segmentLayer image loadBase other (byteAddress loadBase ph k) =
        if InPages loadBase (byteAddress loadBase ph k) other then some 0 else none := by
  intro other hother
  have hph : ph ∈ image.loads := by
    rw [hloads]
    exact List.mem_append_right _ List.mem_cons_self
  have hmem : other ∈ image.loads := by
    rw [hloads, List.mem_append, List.mem_cons]
    exact hother.imp_right Or.inr
  exact segmentLayer_other (hranges.split hloads other hother) (hranges.ends ph hph)
    (hranges.ends other hmem) (hsizes other hmem) hk

/-- At a byte of the file there is that byte, unless a later segment has the address in its pages.
-/
theorem last_file (hranges : image.RangesApart)
    (hsizes : ∀ ph ∈ image.loads, ph.fileSize ≤ ph.memorySize)
    (hloads : image.loads = before ++ ph :: after) (hk : k < ph.fileSize.toNat) (b : Byte) :
    last (fun ph' => segmentLayer image loadBase ph' (byteAddress loadBase ph k)) image.loads b =
      if ∃ later ∈ after, InPages loadBase (byteAddress loadBase ph k) later then 0
      else image.byte (ph.offset + BitVec.ofNat 64 k) := by
  have hph : ph ∈ image.loads := by
    rw [hloads]
    exact List.mem_append_right _ List.mem_cons_self
  have hsize := BitVec.le_def.1 (hsizes ph hph)
  have hothers := @segmentLayer_others image loadBase before after ph k hranges hsizes hloads
    (Nat.lt_of_lt_of_le hk hsize)
  let value := fun ph' => segmentLayer image loadBase ph' (byteAddress loadBase ph k)
  have hself : value ph = some (image.byte (ph.offset + BitVec.ofNat 64 k)) := segmentLayer_file hk
  have hbefore : last value (before ++ [ph]) b = image.byte (ph.offset + BitVec.ofNat 64 k) :=
    last_of_split hself (fun y hy => absurd hy List.not_mem_nil) b
  calc last value image.loads b
      = last value (before ++ [ph] ++ after) b := by rw [hloads, List.append_assoc]; rfl
    _ = last value after (image.byte (ph.offset + BitVec.ofNat 64 k)) := by
        rw [last_append, hbefore]
    _ = _ := last_ite (fun other hother => hothers other (Or.inr hother)) _

/-- Past the bytes of the file there is a zero, if the address is in the pages of any segment. -/
theorem last_zeros (hranges : image.RangesApart)
    (hsizes : ∀ ph ∈ image.loads, ph.fileSize ≤ ph.memorySize)
    (hloads : image.loads = before ++ ph :: after) (hfile : ph.fileSize.toNat ≤ k)
    (hk : k < ph.memorySize.toNat) (b : Byte) :
    last (fun ph' => segmentLayer image loadBase ph' (byteAddress loadBase ph k)) image.loads b =
      if ∃ other ∈ image.loads, InPages loadBase (byteAddress loadBase ph k) other then 0
      else b := by
  have hothers := @segmentLayer_others image loadBase before after ph k hranges hsizes hloads hk
  have hbig := ph.memorySize.isLt
  apply last_ite
  intro other hother
  rw [hloads, List.mem_append, List.mem_cons] at hother
  rcases hother with hbefore | rfl | hafter
  · exact hothers other (Or.inl hbefore)
  · exact segmentLayer_zeros hfile (by omega)
  · exact hothers other (Or.inr hafter)

/-- The file has a byte at a place when it is that long. -/
theorem fileByte_eq_some {offset : U64} {b : Byte} :
    image.fileByte (offset.toNat + k) = some b ↔
      offset.toNat + k < image.size.toNat ∧ image.byte (offset + BitVec.ofNat 64 k) = b := by
  have hplace : BitVec.ofNat 64 (offset.toNat + k) = offset + BitVec.ofNat 64 k := by
    rw [BitVec.ofNat_add, BitVec.ofNat_toNat, BitVec.setWidth_eq]
  unfold Image.fileByte
  rw [hplace]
  split
  · next hin => simp [hin]
  · next hout => simp [hout]

/-- Memory under the segments holds one of them exactly when its bytes are in the file, those that
are in the pages of a later segment are zero, and those in no pages were zero where they should. -/
theorem holdsSegment_iff {memory memory' : Memory} (hranges : image.RangesApart)
    (hsizes : ∀ ph ∈ image.loads, ph.fileSize ≤ ph.memorySize)
    (hloads : image.loads = before ++ ph :: after)
    (hmemory : ∀ address, memory' address =
      last (fun ph => segmentLayer image loadBase ph address) image.loads (memory address)) :
    HoldsSegment image loadBase memory' ph ↔
      (ph.fileSize.toNat = 0 ∨ ph.offset.toNat + ph.fileSize.toNat ≤ image.size.toNat) ∧
        (∀ k < ph.fileSize.toNat, ∀ later ∈ after,
          InPages loadBase (byteAddress loadBase ph k) later →
            image.byte (ph.offset + BitVec.ofNat 64 k) = 0) ∧
        ∀ k < ph.memorySize.toNat,
          (∀ other ∈ image.loads, ¬InPages loadBase (byteAddress loadBase ph k) other) →
            ph.fileSize.toNat ≤ k → memory (byteAddress loadBase ph k) = 0 := by
  -- A byte from the file stays unless a later segment's pages cover it.
  have hfile : ∀ k < ph.fileSize.toNat,
      (image.fileByte (ph.offset.toNat + k) = some (memory' (byteAddress loadBase ph k)) ↔
        ph.offset.toNat + k < image.size.toNat ∧
          ∀ later ∈ after, InPages loadBase (byteAddress loadBase ph k) later →
            image.byte (ph.offset + BitVec.ofNat 64 k) = 0) := by
    intro k hk
    rw [fileByte_eq_some, hmemory, last_file hranges hsizes hloads hk]
    apply and_congr_right
    intro _
    split
    · next hlater =>
      obtain ⟨later, hmem, hin⟩ := hlater
      exact ⟨fun hzero _ _ _ => hzero, fun hzero => hzero later hmem hin⟩
    · next hnone => exact iff_of_true rfl fun later hmem hin => absurd ⟨later, hmem, hin⟩ hnone
  -- A byte behind them is zero in any segment's pages, and else what it was.
  have hzeros : ∀ k, ph.fileSize.toNat ≤ k → k < ph.memorySize.toNat →
      (memory' (byteAddress loadBase ph k) = 0 ↔
        ((∀ other ∈ image.loads, ¬InPages loadBase (byteAddress loadBase ph k) other) →
          memory (byteAddress loadBase ph k) = 0)) := by
    intro k hle hk
    rw [hmemory, last_zeros hranges hsizes hloads hle hk]
    split
    · next hin =>
      obtain ⟨other, hmem, hin⟩ := hin
      exact iff_of_true rfl fun hnone => absurd hin (hnone other hmem)
    · next hnone =>
      exact ⟨fun hzero _ => hzero,
        fun hzero => hzero fun other hmem hin => hnone ⟨other, hmem, hin⟩⟩
  constructor
  · rintro ⟨hf, hz⟩
    refine ⟨?_, fun k hk => ((hfile k hk).1 (hf k hk)).2, fun k hk hnone hle => ?_⟩
    · rcases Nat.eq_zero_or_pos ph.fileSize.toNat with hzero | hpos
      · exact Or.inl hzero
      · -- The last byte is in the file.
        have hlast : ph.fileSize.toNat - 1 < ph.fileSize.toNat := by omega
        have hin := ((hfile _ hlast).1 (hf _ hlast)).1
        right
        omega
    · exact (hzeros k hle hk).1 (hz k hle hk) hnone
  · rintro ⟨hin, hkept, houtside⟩
    refine ⟨fun k hk => (hfile k hk).2 ⟨by omega, hkept k hk⟩, fun k hle hk => ?_⟩
    exact (hzeros k hle hk).2 fun hnone => houtside k hk hnone hle

end

/-! ## What a page allows -/

/-- `protectObject` sets the protections that `protectSegments` says. -/
theorem protectSegments_protectObject (kernel : Kernel) (prot : Protections) (object : Object) :
    (protectSegments kernel prot object).map (fun _ => ()) = protectObject kernel object := by
  unfold protectSegments protectObject
  generalize object.segments = segments
  induction segments generalizing prot with
  | nil => rfl
  | cons s segments ih =>
    rw [List.foldlM_cons]
    show _ =
      (if kernel.mprotect s.address s.size s.protection then _ else _ : Except String Unit) >>=
        fun _ => _
    unfold protectMemory
    split
    · exact ih _
    · rfl

/-- The protections that are set, when every one is granted. -/
theorem protectSegments_ok {kernel : Kernel} {prot prot' : Protections} {object : Object}
    (h : protectSegments kernel prot object = .ok prot') :
    prot' = object.segments.foldl
      (fun prot s => setProtection prot s.address s.size s.protection) prot := by
  unfold protectSegments at h
  refine foldlM_rule (fun (done : List Segment) (prot' : Protections) => prot' = done.foldl
    (fun prot s => setProtection prot s.address s.size s.protection) prot) rfl ?_ h
  rintro done s p p' - rfl hstep
  unfold protectMemory at hstep
  split at hstep
  · rw [List.foldl_append]
    exact (Except.ok.inj hstep).symm
  · cases hstep

/-- The protection of a page is that of the last segment over it. -/
theorem foldl_setProtection (loads : List ProgramHeader64) (protection : Segment → U64)
    (prot : Protections) (page : U64) :
    (loads.map (segmentOf loadBase)).foldl
        (fun prot s => setProtection prot s.address s.size (protection s)) prot page =
      last (fun ph => if InPages loadBase page ph then some (protection (segmentOf loadBase ph))
        else none) loads (prot page) := by
  have hlay : (fun (prot : Protections) ph => setProtection prot (segmentOf loadBase ph).address
      (segmentOf loadBase ph).size (protection (segmentOf loadBase ph))) =
      fun prot ph => lay (fun page => if InPages loadBase page ph then
        some (protection (segmentOf loadBase ph)) else none) prot := by
    funext prot ph page
    have hset : setProtection prot (segmentOf loadBase ph).address (segmentOf loadBase ph).size
        (protection (segmentOf loadBase ph)) page =
          if InPages loadBase page ph then protection (segmentOf loadBase ph) else prot page := rfl
    rw [hset]
    unfold lay
    dsimp only
    split <;> rfl
  rw [List.foldl_map, hlay, foldl_lay]

/-- A segment has whole pages. -/
theorem inPages_pageOf (loadBase address : U64) (ph : ProgramHeader64) :
    InPages loadBase (pageOf address) ph ↔ InPages loadBase address ph := by
  have hpage : (pageOf address).toNat = address.toNat / 4096 * 4096 := alignDown_page address
  have hstart : (mapStart loadBase ph).toNat =
      (loadBase + ph.virtualAddress).toNat / 4096 * 4096 := alignDown_page _
  have hsize := mapSize_toNat loadBase ph
  have haddress := address.isLt
  have hlt := (mapStart loadBase ph).isLt
  unfold InPages
  rw [BitVec.lt_def, BitVec.lt_def, BitVec.toNat_sub, BitVec.toNat_sub, hpage]
  omega

/-- The pages of a segment allow what it asks for exactly when the last segment over each of them
does, or, where there is none, what was there before. -/
theorem pagesAllow_iff {prot prot' : Protections} {ph : ProgramHeader64}
    (hprot : ∀ page, prot' page = last (fun ph => if InPages loadBase page ph then
      some (protectionFromElf ph) else none) image.loads (prot page)) :
    PagesAllow loadBase prot' ph ↔
      (∀ k < ph.memorySize.toNat, ∀ before top after, image.loads = before ++ top :: after →
        InPages loadBase (byteAddress loadBase ph k) top →
        (∀ later ∈ after, ¬InPages loadBase (byteAddress loadBase ph k) later) →
        Allows (protectionFromElf top) (protectionFromElf ph)) ∧
      ∀ k < ph.memorySize.toNat,
        (∀ other ∈ image.loads, ¬InPages loadBase (byteAddress loadBase ph k) other) →
        Allows (prot (pageOf (byteAddress loadBase ph k))) (protectionFromElf ph) := by
  -- The protection of the page of an address, by the last segment with the address in its pages.
  have htop : ∀ address before top after, image.loads = before ++ top :: after →
      InPages loadBase address top → (∀ later ∈ after, ¬InPages loadBase address later) →
      prot' (pageOf address) = protectionFromElf top := by
    intro address before top after hloads hin hlater
    have hpage := (inPages_pageOf loadBase address top).2 hin
    rw [hprot, hloads]
    apply last_of_split
    · exact if_pos hpage
    intro later hmem
    exact if_neg fun hin => hlater later hmem ((inPages_pageOf _ _ _).1 hin)
  have hnone : ∀ address, (∀ other ∈ image.loads, ¬InPages loadBase address other) →
      prot' (pageOf address) = prot (pageOf address) := by
    intro address hout
    rw [hprot]
    apply last_of_none
    intro other hmem
    exact if_neg fun hin => hout other hmem ((inPages_pageOf _ _ _).1 hin)
  constructor
  · intro h
    refine ⟨fun k hk before top after hloads hin hlater => ?_, fun k hk hout => ?_⟩
    · rw [← htop _ before top after hloads hin hlater]
      exact h k hk
    · rw [← hnone _ hout]
      exact h k hk
  · rintro ⟨hallowed, houtside⟩ k hk
    by_cases hin : ∃ other ∈ image.loads, InPages loadBase (byteAddress loadBase ph k) other
    · obtain ⟨before, top, after, hloads, hin, hlater⟩ := exists_split hin
      rw [htop _ before top after hloads hin hlater]
      exact hallowed k hk before top after hloads hin hlater
    · have hout : ∀ other ∈ image.loads, ¬InPages loadBase (byteAddress loadBase ph k) other :=
        fun other hmem hother => hin ⟨other, hmem, hother⟩
      rw [hnone _ hout]
      exact houtside k hk hout

/-! ## A load -/

/-- An image is loaded, and its pages are protected, which is what `protectObject` does: every segment
is held and has its permissions exactly when the segments that share pages do each other no harm. -/
theorem segmentsInPlace_iff {kernel : Kernel} {l l' : LoaderState} {name : CStr} {image : Image}
    {preferredBase : U64} {actions : List Action} {object : Object} {prot prot' : Protections}
    (hload : loadObjectFromMemory kernel l name image preferredBase = .ok (l', actions))
    (hobject : l'.objects = l.objects ++ [object]) (hranges : image.RangesApart)
    (hprotect : protectSegments kernel (mappedProtections prot object) object = .ok prot') :
    protectObject kernel object = .ok () ∧
      (SegmentsInPlace image (image.loadBase preferredBase) l'.memory prot' ↔
        SharesPages image (image.loadBase preferredBase) l.memory prot) := by
  have hprotected : protectObject kernel object = .ok () := by
    rw [← protectSegments_protectObject kernel (mappedProtections prot object), hprotect]
    rfl
  refine ⟨hprotected, ?_⟩
  obtain ⟨object', m, hobjects, -, -, -, hm, hsegments, hmemory, -⟩ := loadObject_segments hload
  obtain rfl : object' = object :=
    List.singleton_inj.1 (List.append_cancel_left (hobjects.symm.trans hobject))
  obtain ⟨hlaid, hsegmentsOf⟩ := loadSegments_laid hm
  have hsizes := loads_checked hm
  generalize image.loadBase preferredBase = loadBase at hm hlaid hsegmentsOf ⊢
  rw [hsegmentsOf] at hsegments
  -- What an address holds, and what a page allows.
  have hholds : ∀ address, l'.memory address =
      last (fun ph => segmentLayer image loadBase ph address) image.loads (l.memory address) := by
    intro address
    rw [hmemory, hlaid, foldl_lay]
  have hmapped : ∀ page, (∀ ph ∈ image.loads, ¬InPages loadBase page ph) →
      mappedProtections prot object' page = prot page := by
    intro page hout
    unfold mappedProtections
    rw [hsegments, foldl_setProtection]
    exact last_of_none (fun ph hph => if_neg (hout ph hph)) _
  have hpages : ∀ page, prot' page = last (fun ph => if InPages loadBase page ph then
      some (protectionFromElf ph) else none) image.loads (mappedProtections prot object' page) := by
    intro page
    rw [protectSegments_ok hprotect, hsegments]
    exact foldl_setProtection image.loads Segment.protection _ page
  have hbefore : ∀ address, (∀ ph ∈ image.loads, ¬InPages loadBase address ph) →
      mappedProtections prot object' (pageOf address) = prot (pageOf address) := by
    intro address hout
    apply hmapped
    intro ph hph hin
    exact hout ph hph ((inPages_pageOf _ _ _).1 hin)
  constructor
  · intro h
    refine ⟨?_, ?_, ?_, ?_⟩
    · intro ph hph
      obtain ⟨before, after, hloads⟩ := List.append_of_mem hph
      exact ((holdsSegment_iff hranges hsizes hloads hholds).1 (h ph hph).1).1
    · intro before ph after hloads
      have hph : ph ∈ image.loads := hloads ▸ List.mem_append_right _ List.mem_cons_self
      exact ((holdsSegment_iff hranges hsizes hloads hholds).1 (h ph hph).1).2.1
    · intro ph hph
      exact ((pagesAllow_iff hpages).1 (h ph hph).2).1
    · intro ph hph k hk hout
      obtain ⟨before, after, hloads⟩ := List.append_of_mem hph
      have hzeros := ((holdsSegment_iff hranges hsizes hloads hholds).1 (h ph hph).1).2.2
      have hallows := ((pagesAllow_iff hpages).1 (h ph hph).2).2 k hk hout
      rw [hbefore _ hout] at hallows
      exact ⟨hzeros k hk hout, hallows⟩
  · intro h ph hph
    obtain ⟨before, after, hloads⟩ := List.append_of_mem hph
    constructor
    · rw [holdsSegment_iff hranges hsizes hloads hholds]
      exact ⟨h.inFile ph hph, h.kept before ph after hloads,
        fun k hk hout => (h.outside ph hph k hk hout).1⟩
    · rw [pagesAllow_iff hpages]
      refine ⟨h.allowed ph hph, fun k hk hout => ?_⟩
      rw [hbefore _ hout]
      exact (h.outside ph hph k hk hout).2

/-- A segment by itself: two bytes of the file and a zero. -/
theorem segmentsInPlace_one : ∃ l actions object prot,
    loadObjectFromMemory grantAll (.initial fun _ => 0) (chars ['a']) (oneSegment 0 2 3)
        LIBRARY_BASE = .ok (l, actions) ∧
      l.objects = [object] ∧
      protectSegments grantAll (mappedProtections (fun _ => 0) object) object = .ok prot ∧
      SegmentsInPlace (oneSegment 0 2 3) LIBRARY_BASE l.memory prot := by
  have hloads : (oneSegment 0 2 3).loads = [(oneSegment 0 2 3).programHeader 0] := rfl
  have hload : ∃ l actions object prot,
      loadObjectFromMemory grantAll (.initial fun _ => 0) (chars ['a']) (oneSegment 0 2 3)
        LIBRARY_BASE = .ok (l, actions) ∧
      l.objects = (LoaderState.initial fun _ => 0).objects ++ [object] ∧
      protectSegments grantAll (mappedProtections (fun _ => 0) object) object = .ok prot :=
    ⟨_, _, _, _, rfl, rfl, rfl⟩
  have hranges : (oneSegment 0 2 3).RangesApart := by
    constructor
    · rw [hloads, List.forall_mem_singleton]
      decide
    · rw [hloads]
      exact List.pairwise_singleton _ _
  -- The only segment is the last over each of its bytes.
  have hshares : SharesPages (oneSegment 0 2 3) LIBRARY_BASE (fun _ => 0) fun _ => 0 := by
    have hin : ∀ k < 3, InPages LIBRARY_BASE
        (byteAddress LIBRARY_BASE ((oneSegment 0 2 3).programHeader 0) k)
        ((oneSegment 0 2 3).programHeader 0) := by decide
    refine ⟨?_, ?_, ?_, ?_⟩
    · rw [hloads, List.forall_mem_singleton]
      decide
    · intro before ph after hsplit k _ later hlater
      have hlen := congrArg List.length (hloads.symm.trans hsplit)
      have hpos := List.length_pos_of_mem hlater
      rw [List.length_singleton, List.length_append, List.length_cons] at hlen
      omega
    · intro ph hph k _ before top after hsplit _ _
      have htop : top ∈ (oneSegment 0 2 3).loads :=
        hsplit ▸ List.mem_append_right _ List.mem_cons_self
      rw [hloads, List.mem_singleton] at hph htop
      rw [hph, htop]
      exact BitVec.and_self
    · intro ph hph k hk hout
      rw [hloads, List.mem_singleton] at hph
      subst hph
      exact absurd (hin k hk) (hout _ (hloads ▸ List.mem_singleton_self _))
  obtain ⟨l, actions, object, prot, hok, hobject, hprotect⟩ := hload
  exact ⟨l, actions, object, prot, hok, hobject, hprotect,
    (segmentsInPlace_iff hok hobject hranges hprotect).2.2 hshares⟩

/-- A shared library of 176 bytes with two segments in one page: the whole file, to be read and
executed, at address 0, and eight bytes, to be read and written, at address 256. -/
def twoInPage : Image :=
  let ident : List Byte := [0x7f, 0x45, 0x4c, 0x46, 2, 1, 1, 0, 0, 0, 0, 0, 0, 0, 0, 0]
  let header := ident ++ littleEndian 2 3 ++ littleEndian 2 62 ++ littleEndian 4 1 ++
    littleEndian 8 0 ++ littleEndian 8 64 ++ littleEndian 8 0 ++ littleEndian 4 0 ++
    littleEndian 2 64 ++ littleEndian 2 56 ++ littleEndian 2 2 ++ littleEndian 6 0
  let text := littleEndian 4 1 ++ littleEndian 4 5 ++ littleEndian 8 0 ++ littleEndian 8 0 ++
    littleEndian 8 0 ++ littleEndian 8 176 ++ littleEndian 8 176 ++ littleEndian 8 4096
  let data := littleEndian 4 1 ++ littleEndian 4 6 ++ littleEndian 8 0 ++ littleEndian 8 256 ++
    littleEndian 8 256 ++ littleEndian 8 8 ++ littleEndian 8 8 ++ littleEndian 8 4096
  { size := 176
    byte := fun a => (header ++ text ++ data).getD a.toNat 0
    header := ⟨true, true, .dynamic, 0, 64, 56, 2⟩
    programHeader := fun i =>
      if i = 0 then ⟨.load, true, false, true, 0, 0, 176, 176⟩
      else ⟨.load, true, true, false, 0, 256, 8, 8⟩
    tables := ⟨fun _ => [], fun _ => [], fun _ => 0, fun _ _ => ⟨0, false, 0, 0, 0⟩,
      fun _ _ => ⟨0, .none, 0, 0⟩⟩ }

/-- Mapping the second segment clears the first, of which the first byte is 127. -/
theorem sharedPage_cleared : ¬ ∀ (kernel : Kernel) (l l' : LoaderState) (name : CStr)
    (image : Image) (preferredBase : U64) (actions : List Action) (object : Object)
    (prot prot' : Protections), image.header.type = .dynamic →
    loadObjectFromMemory kernel l name image preferredBase = .ok (l', actions) →
    l'.objects = l.objects ++ [object] → image.RangesApart →
    protectSegments kernel (mappedProtections prot object) object = .ok prot' →
    SegmentsInPlace image (image.loadBase preferredBase) l'.memory prot' := by
  intro hclaim
  have hloads : twoInPage.loads = [twoInPage.programHeader 0, twoInPage.programHeader 1] := rfl
  have hranges : twoInPage.RangesApart := by
    have hapart : Apart (twoInPage.programHeader 0) (twoInPage.programHeader 1) := by
      rintro n ⟨⟨-, hlt⟩, hle, -⟩
      have hend : (twoInPage.programHeader 0).virtualAddress.toNat +
          (twoInPage.programHeader 0).memorySize.toNat = 176 := rfl
      have hstart : (twoInPage.programHeader 1).virtualAddress.toNat = 256 := rfl
      omega
    constructor
    · rw [hloads]
      decide
    · rw [hloads]
      exact List.pairwise_pair.2 hapart
  have hplace := hclaim grantAll (.initial fun _ => 0) _ (chars ['a']) twoInPage LIBRARY_BASE _ _
    (fun _ => 0) _ rfl rfl rfl hranges rfl
  have hbyte := (hplace (twoInPage.programHeader 0) (hloads ▸ List.mem_cons_self)).1.file 0
    (by decide)
  exact absurd hbyte (by decide)

end IUserApps.Loader
