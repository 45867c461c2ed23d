import IUserApps.Loader.Objects

/-!
# The bounds of a load

What `loadObjectFromMemory` reads of a file and writes for its segments. The program headers lie in
the file, since `validateElf` checks the sum for a wrap. The sums of a segment are not checked so:
`offset + fileSize` and the page-rounded `memorySize` may wrap, and then the copy leaves the file or
the pages mapped. `loadObject_inBounds_iff` says for which headers it does not.
-/

namespace IUserApps.Loader

open Loops

/-- Every byte read lies in the file, and every byte written in the pages mapped for it. -/
def Action.InBounds (image : Image) : Action → Prop
  | .readHeader offset size =>
    ∀ k < size.toNat, (offset + BitVec.ofNat 64 k).toNat < image.size.toNat
  | .loadSegment mapStart mapSize target offset fileSize =>
    ∀ k < fileSize.toNat, (offset + BitVec.ofNat 64 k).toNat < image.size.toNat ∧
      target + BitVec.ofNat 64 k - mapStart < mapSize

/-- In whole numbers: the bytes of a segment end before `2^64`, and they fit the pages that its size
in memory comes to, which wraps around from `2^64` on. -/
def SegmentFits (loadBase : U64) (ph : ProgramHeader64) : Prop :=
  let inPage := (loadBase + ph.virtualAddress).toNat % 4096
  ph.fileSize.toNat = 0 ∨
    (ph.offset.toNat + ph.fileSize.toNat < 2^64 ∧
      (inPage + ph.memorySize.toNat + 4095 < 2^64 ∨
        (2^64 < inPage + ph.memorySize.toNat ∧ inPage + ph.fileSize.toNat ≤ 4096)))

instance (loadBase : U64) (ph : ProgramHeader64) : Decidable (SegmentFits loadBase ph) :=
  inferInstanceAs (Decidable (_ ∨ _))

/-! ## What a load does -/

/-- What the loop over the segments does for one program header. -/
def segmentActions (image : Image) (loadBase : U64) (i : ℕ) : List Action :=
  let ph := image.programHeader i
  let read := .readHeader (image.headerOffset i) sizeofProgramHeader64
  if ph.type = .load then
    [read, .loadSegment (mapStart loadBase ph) (mapSize loadBase ph)
      (loadBase + ph.virtualAddress) ph.offset ph.fileSize]
  else [read]

/-- A segment that was loaded has passed the check of its sizes. -/
def Checked (image : Image) (i : ℕ) : Prop :=
  (image.programHeader i).type = .load →
    (image.programHeader i).fileSize ≤ (image.programHeader i).memorySize ∧
      (image.programHeader i).offset + (image.programHeader i).fileSize ≤ image.size

/-- One program header: its actions, and the check it has passed. -/
theorem loadSegment_ok {kernel : Kernel} {image : Image} {loadBase : U64} {m m' : Mapping} {i : ℕ}
    (h : loadSegment kernel image loadBase m i = .ok m') :
    m'.actions = m.actions ++ segmentActions image loadBase i ∧ Checked image i := by
  unfold loadSegment at h
  unfold segmentActions Checked
  dsimp only at h ⊢
  split at h
  next htype =>
    cases h
    rw [if_neg htype]
    exact ⟨rfl, fun ht => absurd ht htype⟩
  next htype =>
    have hload : (image.programHeader i).type = .load := not_not.1 htype
    split at h
    · cases h
    next hchecks =>
      split at h
      · cases h
      · split at h
        · cases h
        · cases h
          rw [if_pos hload]
          refine ⟨rfl, fun _ => ?_⟩
          rw [not_or, BitVec.not_lt, BitVec.not_lt] at hchecks
          exact hchecks

/-- The loop over the segments. -/
theorem loadSegments_ok {kernel : Kernel} {image : Image} {loadBase : U64} {memory : Memory}
    {m : Mapping} (h : loadSegments kernel image loadBase memory = .ok m) :
    m.actions = (List.range image.header.programHeaderCount.toNat).flatMap
        (segmentActions image loadBase) ∧
      ∀ i < image.header.programHeaderCount.toNat, Checked image i := by
  have hrule := foldlM_rule (fun done (m : Mapping) =>
    m.actions = done.flatMap (segmentActions image loadBase) ∧ ∀ i ∈ done, Checked image i)
    ⟨rfl, fun i hi => absurd hi List.not_mem_nil⟩ ?_ h
  · exact ⟨hrule.1, fun i hi => hrule.2 i (List.mem_range.2 hi)⟩
  · rintro done i s s' - ⟨hactions, hchecked⟩ hstep
    obtain ⟨hactions', hchecked'⟩ := loadSegment_ok hstep
    constructor
    · rw [hactions', hactions, List.flatMap_append, List.flatMap_singleton]
    · intro j hj
      rcases List.mem_append.1 hj with hj | hj
      · exact hchecked j hj
      · rw [List.mem_singleton.1 hj]
        exact hchecked'

/-- A load that ends has checked the file, and its actions are those of its program headers. -/
theorem loadObject_ok {kernel : Kernel} {l l' : LoaderState} {name : CStr} {image : Image}
    {preferredBase : U64} {actions : List Action}
    (h : loadObjectFromMemory kernel l name image preferredBase = .ok (l', actions)) :
    validateElf image = true ∧
      actions = (List.range image.header.programHeaderCount.toNat).flatMap
        (segmentActions image (image.loadBase preferredBase)) ++ findDynamicReads image ∧
      ∀ i < image.header.programHeaderCount.toNat, Checked image i := by
  unfold loadObjectFromMemory at h
  split at h
  · cases h
  next hvalid =>
    dsimp only at h
    split at h
    · cases h
    · cases hm : loadSegments kernel image (image.loadBase preferredBase) l.memory with
      | error e =>
        rw [hm] at h
        cases h
      | ok m =>
        rw [hm] at h
        obtain ⟨hactions, hchecked⟩ := loadSegments_ok hm
        dsimp only [bind, Except.bind] at h
        split at h
        · cases h
        · cases h
          exact ⟨by simpa using hvalid, by rw [hactions], hchecked⟩

/-! ## Bounds -/

/-- What `validateElf` has checked of the table of program headers. -/
theorem headers_of_valid {image : Image} (h : validateElf image = true) :
    image.header.programHeaderOffset.toNat + 56 * image.header.programHeaderCount.toNat ≤
      image.size.toNat := by
  unfold validateElf at h
  dsimp only at h
  split at h
  · cases h
  · split at h
    · cases h
    next hident =>
      split at h
      · cases h
      · split at h
        · cases h
        next hend =>
          have hentry : image.header.programHeaderEntrySize.setWidth 64 =
              sizeofProgramHeader64 := by
            by_contra hne
            exact hident (by simp [hne])
          have hcount := image.header.programHeaderCount.isLt
          rw [hentry, not_or] at hend
          unfold sizeofProgramHeader64 at hend
          -- The product of two 16-bit sizes does not wrap, so the sum wraps only below its offset.
          have hproduct : ((56 : U64) * image.header.programHeaderCount.setWidth 64).toNat =
              56 * image.header.programHeaderCount.toNat := by
            rw [BitVec.toNat_mul, BitVec.toNat_setWidth]
            have h56 : (56 : U64).toNat = 56 := rfl
            rw [h56]
            omega
          obtain ⟨hsize, hwrap⟩ := hend
          rw [BitVec.lt_def, BitVec.toNat_add, hproduct] at hsize hwrap
          omega

/-- The program headers of a valid file lie in it. -/
theorem readHeader_inBounds {image : Image} (h : validateElf image = true) {i : ℕ}
    (hi : i < image.header.programHeaderCount.toNat) :
    (Action.readHeader (image.headerOffset i) sizeofProgramHeader64).InBounds image := by
  have htable := headers_of_valid h
  have hsize := image.size.isLt
  intro k hk
  have h56 : sizeofProgramHeader64.toNat = 56 := rfl
  rw [h56] at hk
  unfold Image.headerOffset
  rw [BitVec.toNat_add, BitVec.toNat_add, BitVec.toNat_mul, h56, BitVec.toNat_ofNat,
    BitVec.toNat_ofNat]
  omega

/-- The place of a segment in its first page, in whole numbers. -/
theorem pageOffset_toNat (loadBase : U64) (ph : ProgramHeader64) :
    (pageOffset loadBase ph).toNat = (loadBase + ph.virtualAddress).toNat % 4096 := by
  unfold pageOffset mapStart
  have hdown := alignDown_page (loadBase + ph.virtualAddress)
  generalize loadBase + ph.virtualAddress = start at hdown ⊢
  have hlt := start.isLt
  rw [BitVec.toNat_sub, hdown]
  omega

/-- The size of a segment's pages, in whole numbers. -/
theorem mapSize_toNat (loadBase : U64) (ph : ProgramHeader64) :
    (mapSize loadBase ph).toNat = ((loadBase + ph.virtualAddress).toNat % 4096 +
      ph.memorySize.toNat + 4095) % 2^64 / 4096 * 4096 := by
  unfold mapSize
  rw [alignUp_page, BitVec.toNat_add, pageOffset_toNat]
  omega

/-- A copy of bytes that starts inside a range and stays in it, byte by byte, is one that ends in
it. -/
theorem copy_inRange_iff {start size n : ℕ} (hstart : start < 2^64) (hsize : size < 2^64) :
    (∀ k < n, (start + k) % 2^64 < size) ↔ n = 0 ∨ start + n ≤ size := by
  constructor
  · intro h
    rcases Nat.eq_zero_or_pos n with hn | hn
    · exact Or.inl hn
    · right
      by_contra hover
      have h0 := h 0 hn
      have hk := h (size - start) (by omega)
      omega
  · rintro (rfl | h) k hk
    · omega
    · omega

/-- A segment that has passed the check stays in the file and in its pages exactly when it fits. -/
theorem loadSegment_inBounds_iff {image : Image} (loadBase : U64) {i : ℕ} (h : Checked image i)
    (hload : (image.programHeader i).type = .load) :
    (Action.loadSegment (mapStart loadBase (image.programHeader i))
        (mapSize loadBase (image.programHeader i))
        (loadBase + (image.programHeader i).virtualAddress) (image.programHeader i).offset
        (image.programHeader i).fileSize).InBounds image ↔
      SegmentFits loadBase (image.programHeader i) := by
  obtain ⟨hmem, hfile⟩ := h hload
  generalize image.programHeader i = ph at hmem hfile ⊢
  have hsize := mapSize_toNat loadBase ph
  have hpage := pageOffset_toNat loadBase ph
  rw [BitVec.le_def] at hmem hfile
  rw [BitVec.toNat_add] at hfile
  -- The two conditions on each byte, in whole numbers.
  have hread : ∀ k < ph.fileSize.toNat, (ph.offset + BitVec.ofNat 64 k).toNat =
      (ph.offset.toNat + k) % 2^64 := by
    intro k hk
    have hk64 := ph.fileSize.isLt
    rw [BitVec.toNat_add, BitVec.toNat_ofNat]
    omega
  have hwrite : ∀ k < ph.fileSize.toNat,
      (loadBase + ph.virtualAddress + BitVec.ofNat 64 k - mapStart loadBase ph).toNat =
        ((loadBase + ph.virtualAddress).toNat % 4096 + k) % 2^64 := by
    intro k hk
    have hk64 := ph.fileSize.isLt
    have hmove : loadBase + ph.virtualAddress + BitVec.ofNat 64 k - mapStart loadBase ph =
        pageOffset loadBase ph + BitVec.ofNat 64 k := by
      unfold pageOffset
      bv_omega
    rw [hmove, BitVec.toNat_add, hpage, BitVec.toNat_ofNat]
    omega
  have hsplit : (Action.loadSegment (mapStart loadBase ph) (mapSize loadBase ph)
        (loadBase + ph.virtualAddress) ph.offset ph.fileSize).InBounds image ↔
      (∀ k < ph.fileSize.toNat, (ph.offset.toNat + k) % 2^64 < image.size.toNat) ∧
        ∀ k < ph.fileSize.toNat,
          ((loadBase + ph.virtualAddress).toNat % 4096 + k) % 2^64 <
            (mapSize loadBase ph).toNat := by
    constructor
    · intro hin
      refine ⟨fun k hk => ?_, fun k hk => ?_⟩
      · rw [← hread k hk]
        exact (hin k hk).1
      · rw [← hwrite k hk]
        exact (hin k hk).2
    · rintro ⟨hr, hw⟩ k hk
      refine ⟨?_, ?_⟩
      · rw [hread k hk]
        exact hr k hk
      · rw [BitVec.lt_def, hwrite k hk]
        exact hw k hk
  rw [hsplit, copy_inRange_iff ph.offset.isLt image.size.isLt,
    copy_inRange_iff (by omega) (mapSize loadBase ph).isLt, hsize]
  unfold SegmentFits
  dsimp only
  have h0 := ph.memorySize.isLt
  have h1 := image.size.isLt
  have h2 := ph.offset.isLt
  have h3 := ph.fileSize.isLt
  have h4 : (loadBase + ph.virtualAddress).toNat % 4096 < 4096 := Nat.mod_lt _ (by decide)
  generalize (loadBase + ph.virtualAddress).toNat % 4096 = inPage at h4 ⊢
  omega

/-- A load that ends has stayed in the file and in the pages mapped for each segment, if and only if
every segment of the file fits. -/
theorem loadObject_inBounds_iff {kernel : Kernel} {l l' : LoaderState} {name : CStr} {image : Image}
    {preferredBase : U64} {actions : List Action}
    (h : loadObjectFromMemory kernel l name image preferredBase = .ok (l', actions)) :
    (∀ action ∈ actions, action.InBounds image) ↔
      ∀ i < image.header.programHeaderCount.toNat, (image.programHeader i).type = .load →
        SegmentFits (image.loadBase preferredBase) (image.programHeader i) := by
  obtain ⟨hvalid, rfl, hchecked⟩ := loadObject_ok h
  constructor
  · -- The second action of a segment is the read of its bytes.
    intro hin i hi hload
    rw [← loadSegment_inBounds_iff _ (hchecked i hi) hload]
    apply hin
    apply List.mem_append_left
    refine List.mem_flatMap.2 ⟨i, List.mem_range.2 hi, ?_⟩
    unfold segmentActions
    rw [if_pos hload]
    exact List.mem_cons_of_mem _ List.mem_cons_self
  · intro hfits action haction
    rcases List.mem_append.1 haction with hsegment | hread
    · obtain ⟨i, hi, hmem⟩ := List.mem_flatMap.1 hsegment
      have hi' := List.mem_range.1 hi
      unfold segmentActions at hmem
      dsimp only at hmem
      split at hmem
      next hload =>
        rcases List.mem_cons.1 hmem with rfl | hmem
        · exact readHeader_inBounds hvalid hi'
        · rw [List.mem_singleton.1 hmem, loadSegment_inBounds_iff _ (hchecked i hi') hload]
          exact hfits i hi' hload
      next hload =>
        rw [List.mem_singleton.1 hmem]
        exact readHeader_inBounds hvalid hi'
    · -- The later passes read headers only.
      obtain ⟨i, hi, rfl⟩ := List.mem_map.1 hread
      exact readHeader_inBounds hvalid (List.mem_range.1 hi)

/-! ### Files of one segment -/

/-- A number as `n` bytes, the lowest first. -/
def littleEndian (n value : ℕ) : List Byte :=
  (List.range n).map fun k => BitVec.ofNat 8 (value >>> (8 * k))

/-- A shared library of 120 bytes: its ELF header and one program header, of a readable segment at
address 0. -/
def oneSegment (offset fileSize memorySize : ℕ) : Image :=
  let ident : List Byte := [0x7f, 0x45, 0x4c, 0x46, 2, 1, 1, 0, 0, 0, 0, 0, 0, 0, 0, 0]
  let header := ident ++ littleEndian 2 3 ++ littleEndian 2 62 ++ littleEndian 4 1 ++
    littleEndian 8 0 ++ littleEndian 8 64 ++ littleEndian 8 0 ++ littleEndian 4 0 ++
    littleEndian 2 64 ++ littleEndian 2 56 ++ littleEndian 2 1 ++ littleEndian 6 0
  let programHeader := littleEndian 4 1 ++ littleEndian 4 4 ++ littleEndian 8 offset ++
    littleEndian 8 0 ++ littleEndian 8 0 ++ littleEndian 8 fileSize ++ littleEndian 8 memorySize ++
    littleEndian 8 4096
  { size := 120
    byte := fun a => (header ++ programHeader).getD a.toNat 0
    header := ⟨true, true, .dynamic, 0, 64, 56, 1⟩
    programHeader := fun _ => ⟨.load, true, false, false, BitVec.ofNat 64 offset, 0,
      BitVec.ofNat 64 fileSize, BitVec.ofNat 64 memorySize⟩
    tables := ⟨fun _ => [], fun _ => [], fun _ => 0, fun _ _ => ⟨0, false, 0, 0, 0⟩,
      fun _ _ => ⟨0, .none, 0, 0⟩⟩ }

/-- A kernel that grants everything. -/
def grantAll : Kernel := ⟨fun _ _ _ => true, fun _ _ _ => true⟩

/-- The whole file as one page. -/
theorem loadObject_inBounds_page :
    ∃ l actions, loadObjectFromMemory grantAll (.initial fun _ => 0) (chars ['l', 'i', 'b'])
        (oneSegment 0 120 4096) LIBRARY_BASE = .ok (l, actions) ∧
      ∀ action ∈ actions, action.InBounds (oneSegment 0 120 4096) := by
  obtain ⟨l, actions, h⟩ : ∃ l actions, loadObjectFromMemory grantAll (.initial fun _ => 0)
      (chars ['l', 'i', 'b']) (oneSegment 0 120 4096) LIBRARY_BASE = .ok (l, actions) :=
    ⟨_, _, rfl⟩
  exact ⟨l, actions, h, (loadObject_inBounds_iff h).2 (by decide)⟩

/-- Offset `2^64 - 16` and 32 bytes: the sum wraps to 16, and the copy starts before the file. -/
theorem wrappedOffset_leavesFile :
    ¬ ∀ (kernel : Kernel) (l l' : LoaderState) (name : CStr) (image : Image) (preferredBase : U64)
      (actions : List Action),
      loadObjectFromMemory kernel l name image preferredBase = .ok (l', actions) →
        ∀ action ∈ actions, action.InBounds image := by
  intro hclaim
  have hin := hclaim grantAll (.initial fun _ => 0) _ (chars ['l', 'i', 'b'])
    (oneSegment (2^64 - 16) 32 32) LIBRARY_BASE _ rfl
    (.loadSegment LIBRARY_BASE 4096 LIBRARY_BASE (BitVec.ofNat 64 (2^64 - 16)) 32) ?_
  · have hread := (hin 0 (by decide)).1
    exact absurd hread (by decide)
  · exact List.mem_cons_of_mem _ List.mem_cons_self

end IUserApps.Loader
