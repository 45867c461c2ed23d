import IUserApps.Loader.Bounds
import IUserApps.Loader.Load

/-!
# Where the libraries are put

`loadDependency` loads every shared library at `nextLibraryBase`, which a load then moves past the
highest page it has mapped, whatever the order of the segments and however large the library. So the
libraries lie one after another: the pages of one end at or before the base of the next
(`Placed.ordered`), and none lies below `LIBRARY_BASE`. This holds as long as the segments end below
`2^47`, which leaves room for the rounding.
-/

namespace IUserApps.Loader

open Loops

/-- An address in the pages of a segment. -/
def Segment.Covers (segment : Segment) (address : U64) : Prop :=
  address - segment.address < segment.size

/-- The segments of a file end below `2^47` once the load base is added. -/
def Image.EndsBelow (image : Image) (loadBase : U64) : Prop :=
  ∀ i < image.header.programHeaderCount.toNat, (image.programHeader i).type = .load →
    loadBase.toNat + (image.programHeader i).virtualAddress.toNat +
      (image.programHeader i).memorySize.toNat < 2^47

/-- A shared library that was loaded at its base with its segments below `2^47`. -/
def Object.Library (object : Object) : Prop :=
  object.image.header.type = .dynamic ∧ object.image.EndsBelow object.base

instance (image : Image) (loadBase : U64) : Decidable (image.EndsBelow loadBase) :=
  inferInstanceAs (Decidable (∀ i < _, _))

instance (object : Object) : Decidable object.Library := inferInstanceAs (Decidable (_ ∧ _))

/-- Loads the libraries of some names, one after another. -/
def loadDependencies (kernel : Kernel) (disk : Disk) (l : LoaderState) (names : List CStr) :
    Except String LoaderState :=
  names.foldlM (fun l needed => (loadDependency kernel disk l needed).map Prod.fst) l

/-! ## Rounding to the stride -/

/-- Rounding up to the stride, in 64 bits. -/
theorem alignUp_stride (value : U64) :
    (alignUp value LIBRARY_STRIDE).toNat = (value.toNat + (2^26 - 1)) % 2^64 / 2^26 * 2^26 := by
  have hsum : (value + LIBRARY_STRIDE - 1).toNat = (value.toNat + (2^26 - 1)) % 2^64 := by
    unfold LIBRARY_STRIDE
    bv_omega
  have h := alignDown_twoPow (value + LIBRARY_STRIDE - 1) (k := 26) (by decide)
  rw [hsum] at h
  exact h

/-- The base after a load that has mapped nothing past an address. -/
theorem nextBase_toNat {maxAddress : U64} (h : maxAddress.toNat < 2^48) :
    (alignUp (maxAddress + LIBRARY_STRIDE) LIBRARY_STRIDE).toNat =
      (maxAddress.toNat + (2^27 - 1)) / 2^26 * 2^26 := by
  have hsum : (maxAddress + LIBRARY_STRIDE).toNat = maxAddress.toNat + 2^26 := by
    unfold LIBRARY_STRIDE
    bv_omega
  rw [alignUp_stride, hsum]
  omega

/-! ## One library -/

/-- The pages of a segment lie from the load base on and end below `2^47`. -/
theorem segment_placed {loadBase : U64} {ph : ProgramHeader64} (hbase : loadBase.toNat % 2^26 = 0)
    (hends : loadBase.toNat + ph.virtualAddress.toNat + ph.memorySize.toNat < 2^47) :
    loadBase.toNat ≤ (mapStart loadBase ph).toNat ∧
      (mapStart loadBase ph).toNat + (mapSize loadBase ph).toNat ≤ 2^47 := by
  have hsum : (loadBase + ph.virtualAddress).toNat =
      loadBase.toNat + ph.virtualAddress.toNat := by
    rw [BitVec.toNat_add]
    omega
  have hstart : (mapStart loadBase ph).toNat =
      (loadBase.toNat + ph.virtualAddress.toNat) / 4096 * 4096 := by
    unfold mapStart
    rw [alignDown_page, hsum]
  have hsize := mapSize_toNat loadBase ph
  rw [hsum] at hsize
  omega

/-- The variables of the loop over the segments: what was mapped lies between the load base and the
highest address. -/
structure Mapped (loadBase : U64) (m : Mapping) : Prop where
  base_le : loadBase.toNat ≤ m.maxAddress.toNat
  below : m.maxAddress.toNat ≤ max loadBase.toNat (2^47)
  segments : ∀ s ∈ m.segments, loadBase.toNat ≤ s.address.toNat ∧
    s.address.toNat + s.size.toNat ≤ m.maxAddress.toNat

/-- One program header of the loop over the segments. -/
theorem loadSegment_mapped {kernel : Kernel} {image : Image} {loadBase : U64} {m m' : Mapping}
    {i : ℕ} (hbase : loadBase.toNat % 2^26 = 0)
    (hends : (image.programHeader i).type = .load →
      loadBase.toNat + (image.programHeader i).virtualAddress.toNat +
        (image.programHeader i).memorySize.toNat < 2^47)
    (hm : Mapped loadBase m) (h : loadSegment kernel image loadBase m i = .ok m') :
    Mapped loadBase m' := by
  obtain ⟨hle, hbelow, hsegments⟩ := hm
  unfold loadSegment at h
  dsimp only at h
  split at h
  next =>
    cases h
    exact ⟨hle, hbelow, hsegments⟩
  next htype =>
    obtain ⟨hfrom, hto⟩ := segment_placed hbase (hends (not_not.1 htype))
    generalize mapStart loadBase (image.programHeader i) = start at hfrom hto h
    generalize mapSize loadBase (image.programHeader i) = size at hto h
    have hsum : (start + size).toNat = start.toNat + size.toNat := by
      rw [BitVec.toNat_add]
      omega
    split at h
    · cases h
    · split at h
      · cases h
      · split at h
        · cases h
        · cases h
          -- The highest address is the larger of the old one and the segment's end.
          have hmax : (if m.maxAddress < start + size then start + size
              else m.maxAddress).toNat = max m.maxAddress.toNat (start.toNat + size.toNat) := by
            split
            · next hlt =>
              rw [BitVec.lt_def] at hlt
              omega
            · next hlt =>
              rw [BitVec.lt_def] at hlt
              omega
          refine ⟨?_, ?_, ?_⟩
          · dsimp only
            omega
          · dsimp only
            omega
          · intro s hs
            dsimp only at hs ⊢
            rcases List.mem_append.1 hs with hold | hnew
            · have := hsegments s hold
              omega
            · rw [List.mem_singleton.1 hnew]
              dsimp only
              omega

/-- The loop over the segments. -/
theorem loadSegments_mapped {kernel : Kernel} {image : Image} {loadBase : U64} {memory : Memory}
    {m : Mapping} (hbase : loadBase.toNat % 2^26 = 0) (hends : image.EndsBelow loadBase)
    (h : loadSegments kernel image loadBase memory = .ok m) : Mapped loadBase m := by
  refine foldlM_rule (fun _ m => Mapped loadBase m) ?_ ?_ h
  · exact ⟨Nat.le_refl _, Nat.le_max_left _ _, fun s hs => absurd hs List.not_mem_nil⟩
  · intro _ i s s' hi hs hstep
    exact loadSegment_mapped hbase (hends i (List.mem_range.1 hi)) hs hstep

/-- The scan of the dynamic section leaves the segments. -/
theorem parseDynamic_segments {object object' : Object} (h : parseDynamic object = .ok object') :
    object'.segments = object.segments := by
  unfold parseDynamic at h
  split at h
  · cases h
    rfl
  · dsimp only [bind, Except.bind] at h
    split at h
    · cases h
    · split at h
      · split at h
        · cases h
        · split at h
          · cases h
          · cases h
            rfl
      · cases h

/-- A load that ends: the object's base and segments, the memory, and the base after it. -/
theorem loadObject_segments {kernel : Kernel} {l l' : LoaderState} {name : CStr} {image : Image}
    {preferredBase : U64} {actions : List Action}
    (h : loadObjectFromMemory kernel l name image preferredBase = .ok (l', actions)) :
    ∃ object m, l'.objects = l.objects ++ [object] ∧ l.objects.length < MAX_OBJECTS ∧
      object.image = image ∧ object.base = image.loadBase preferredBase ∧
      loadSegments kernel image (image.loadBase preferredBase) l.memory = .ok m ∧
      object.segments = m.segments ∧ l'.memory = m.memory ∧
      (image.header.type = .dynamic →
        l'.nextLibraryBase = alignUp (m.maxAddress + LIBRARY_STRIDE) LIBRARY_STRIDE) := by
  unfold loadObjectFromMemory at h
  split at h
  · cases h
  · dsimp only at h
    split at h
    · cases h
    next hroom =>
      -- There is room in the table, so the segments are loaded.
      cases hm : loadSegments kernel image (image.loadBase preferredBase) l.memory with
      | error e =>
        rw [hm] at h
        cases h
      | ok m =>
        rw [hm] at h
        dsimp only [bind, Except.bind] at h
        split at h
        · cases h
        -- The next base is moved past the segments, if the object is a library.
        next object hobject =>
          cases h
          obtain ⟨hfile, -⟩ := parseDynamic_ok hobject rfl
          refine ⟨object, m, rfl, Nat.not_le.1 hroom, hfile.image, hfile.base, rfl,
            parseDynamic_segments hobject, rfl, fun hdynamic => ?_⟩
          dsimp only
          rw [if_pos hdynamic]

/-! ## The libraries -/

/-- The libraries are the objects from the place `n` on. They lie one after another, and the next
one has its place past them all. -/
structure Placed (n : ℕ) (l : LoaderState) : Prop where
  place_le : n ≤ l.objects.length
  nextAligned : l.nextLibraryBase.toNat % 2^26 = 0
  nextLarge : LIBRARY_BASE.toNat ≤ l.nextLibraryBase.toNat
  nextBelow : l.nextLibraryBase.toNat ≤ 2^47 + 2^27 * l.objects.length
  aligned : ∀ a ∈ l.objects.drop n, a.base.toNat % 2^26 = 0
  above : ∀ a ∈ l.objects.drop n, LIBRARY_BASE.toNat ≤ a.base.toNat
  segments : ∀ a ∈ l.objects.drop n, ∀ s ∈ a.segments, a.base.toNat ≤ s.address.toNat ∧
    s.address.toNat + s.size.toNat ≤ l.nextLibraryBase.toNat
  ordered : (l.objects.drop n).Pairwise fun a b =>
    ∀ s ∈ a.segments, s.address.toNat + s.size.toNat ≤ b.base.toNat

/-- A load at the next base puts its library past the others. -/
theorem Placed.load {kernel : Kernel} {n : ℕ} {l l' : LoaderState} {name : CStr} {image : Image}
    {actions : List Action} (hl : Placed n l)
    (h : loadObjectFromMemory kernel l name image l.nextLibraryBase = .ok (l', actions))
    (hlibs : ∀ a ∈ l'.objects.drop n, a.Library) : Placed n l' := by
  obtain ⟨object, m, hobjects, hroom, himage, hbase, hm, hsegments, -, hnext⟩ :=
    loadObject_segments h
  have hdrop : l'.objects.drop n = l.objects.drop n ++ [object] := by
    rw [hobjects, List.drop_append_of_le_length hl.place_le]
  obtain ⟨hdynamic, hends⟩ := hlibs object (by rw [hdrop]; exact List.mem_append_right _ (by simp))
  rw [himage] at hdynamic hends
  -- A library that can be put anywhere is put at the next base.
  have hpreferred : image.loadBase l.nextLibraryBase = l.nextLibraryBase := by
    unfold Image.loadBase
    rw [if_pos hdynamic]
  rw [hpreferred] at hbase hm
  rw [hbase] at hends
  obtain ⟨hle, hbelow, hmapped⟩ := loadSegments_mapped hl.nextAligned hends hm
  have hplace := hl.place_le
  have haligned := hl.nextAligned
  have hlarge := hl.nextLarge
  have hnextBelow := hl.nextBelow
  have hlength : l'.objects.length = l.objects.length + 1 := by
    rw [hobjects, List.length_append, List.length_singleton]
  -- The table has no more than 16 places, so the bases stay far from wrapping.
  have hfew : l.objects.length < 16 := hroom
  have hnew : l'.nextLibraryBase.toNat = (m.maxAddress.toNat + (2^27 - 1)) / 2^26 * 2^26 := by
    rw [hnext hdynamic, nextBase_toNat (by omega)]
  refine ⟨by omega, by omega, by omega, by omega, ?_, ?_, ?_, ?_⟩
  · intro a ha
    rw [hdrop] at ha
    rcases List.mem_append.1 ha with hold | hself
    · exact hl.aligned a hold
    · rw [List.mem_singleton.1 hself, hbase]
      exact haligned
  · intro a ha
    rw [hdrop] at ha
    rcases List.mem_append.1 ha with hold | hself
    · exact hl.above a hold
    · rw [List.mem_singleton.1 hself, hbase]
      exact hlarge
  · intro a ha s hs
    rw [hdrop] at ha
    rcases List.mem_append.1 ha with hold | hself
    · have := hl.segments a hold s hs
      omega
    · rw [List.mem_singleton.1 hself] at hs ⊢
      rw [hsegments] at hs
      have := hmapped s hs
      rw [hbase]
      omega
  · rw [hdrop, List.pairwise_append]
    refine ⟨hl.ordered, List.pairwise_singleton _ _, ?_⟩
    intro a ha b hb s hs
    rw [List.mem_singleton.1 hb, hbase]
    exact (hl.segments a ha s hs).2

/-- Before the first library is loaded. -/
theorem placed_start {l : LoaderState} (hstart : l.nextLibraryBase = LIBRARY_BASE) :
    Placed l.objects.length l := by
  have hnone : l.objects.drop l.objects.length = [] := List.drop_length
  refine ⟨Nat.le_refl _, ?_, ?_, ?_, ?_, ?_, ?_, ?_⟩
  · rw [hstart]
    decide
  · rw [hstart]
  · rw [hstart]
    exact Nat.le_add_right_of_le (by decide)
  all_goals
    rw [hnone]
    simp

/-- A name that is looked up: it is found, or its file is loaded at the next base. -/
theorem loadDependency_ok {kernel : Kernel} {disk : Disk} {l l' : LoaderState} {needed : CStr}
    {j : ℕ} (h : loadDependency kernel disk l needed = .ok (l', j)) :
    l' = l ∨ ∃ image actions,
      loadObjectFromMemory kernel l (resolveSoname needed) image l.nextLibraryBase =
        .ok (l', actions) := by
  unfold loadDependency readWholeFile at h
  dsimp only at h
  split at h
  · cases h
    exact Or.inl rfl
  · split at h
    · cases h
    next image hdisk =>
      dsimp only [bind, Except.bind] at h
      split at h
      · cases h
      next result hload =>
        cases h
        exact Or.inr ⟨image, result.2, hload⟩

/-- A name that is looked up keeps the libraries in their places. The table only grows, so what is
assumed of the libraries after the step held of those before it. -/
theorem loadDependency_placed {kernel : Kernel} {disk : Disk} {n : ℕ} {l l' : LoaderState}
    {needed : CStr} {j : ℕ} (hn : n ≤ l.objects.length)
    (hl : (∀ a ∈ l.objects.drop n, a.Library) → Placed n l)
    (h : loadDependency kernel disk l needed = .ok (l', j)) :
    n ≤ l'.objects.length ∧ ((∀ a ∈ l'.objects.drop n, a.Library) → Placed n l') := by
  rcases loadDependency_ok h with rfl | ⟨image, actions, hload⟩
  · exact ⟨hn, hl⟩
  · obtain ⟨object, -, hobjects, -⟩ := loadObject_segments hload
    have hdrop : l'.objects.drop n = l.objects.drop n ++ [object] := by
      rw [hobjects, List.drop_append_of_le_length hn]
    refine ⟨?_, fun hlibs => ?_⟩
    · rw [hobjects, List.length_append]
      omega
    · refine (hl fun a ha => hlibs a ?_).load hload hlibs
      rw [hdrop]
      exact List.mem_append_left _ ha

/-- The addresses that a segment covers when its end does not wrap. -/
theorem Segment.covers_bounds {s : Segment} (h : s.address.toNat + s.size.toNat < 2^64)
    {address : U64} (hcovers : s.Covers address) :
    s.address.toNat ≤ address.toNat ∧ address.toNat < s.address.toNat + s.size.toNat := by
  unfold Segment.Covers at hcovers
  rw [BitVec.lt_def, BitVec.toNat_sub] at hcovers
  have := address.isLt
  omega

/-- The libraries' pages share no address, and lie at their bases or above. -/
theorem Placed.disjoint {n : ℕ} {l : LoaderState} (hl : Placed n l) :
    ((l.objects.drop n).Pairwise fun a b => ∀ s ∈ a.segments, ∀ s' ∈ b.segments, ∀ address,
      ¬ (s.Covers address ∧ s'.Covers address)) ∧
    ∀ a ∈ l.objects.drop n, a.base.toNat % LIBRARY_STRIDE.toNat = 0 ∧
      ∀ s ∈ a.segments, ∀ address, s.Covers address → LIBRARY_BASE ≤ address := by
  -- The pages of every library end at the next base or before, so no end wraps.
  have hend := l.nextLibraryBase.isLt
  refine ⟨hl.ordered.imp_of_mem ?_, fun a ha => ⟨hl.aligned a ha, ?_⟩⟩
  · rintro a b ha hb hab s hs s' hs' address ⟨hcovers, hcovers'⟩
    have hfirst := hl.segments a ha s hs
    have hsecond := hl.segments b hb s' hs'
    have hbefore := Segment.covers_bounds (by omega) hcovers
    have hafter := Segment.covers_bounds (by omega) hcovers'
    have hordered := hab s hs
    omega
  · intro s hs address hcovers
    have hplaced := hl.segments a ha s hs
    have hfrom := Segment.covers_bounds (by omega) hcovers
    have habove := hl.above a ha
    rw [BitVec.le_def]
    omega

/-- Whatever libraries are loaded, one after another from `LIBRARY_BASE` on, with their segments
below `2^47`: no two of them share an address of their pages, every base is a multiple of the
stride, and no page lies below `LIBRARY_BASE`. -/
theorem loadDependencies_placed {kernel : Kernel} {disk : Disk} {l l' : LoaderState}
    {names : List CStr} (hstart : l.nextLibraryBase = LIBRARY_BASE)
    (h : loadDependencies kernel disk l names = .ok l')
    (hlibs : ∀ a ∈ l'.objects.drop l.objects.length, a.Library) :
    ((l'.objects.drop l.objects.length).Pairwise fun a b => ∀ s ∈ a.segments, ∀ s' ∈ b.segments,
      ∀ address, ¬ (s.Covers address ∧ s'.Covers address)) ∧
    ∀ a ∈ l'.objects.drop l.objects.length, a.base.toNat % LIBRARY_STRIDE.toNat = 0 ∧
      ∀ s ∈ a.segments, ∀ address, s.Covers address → LIBRARY_BASE ≤ address := by
  have hrun := foldlM_rule (fun _ (l' : LoaderState) => l.objects.length ≤ l'.objects.length ∧
    ((∀ a ∈ l'.objects.drop l.objects.length, a.Library) → Placed l.objects.length l'))
    ⟨Nat.le_refl _, fun _ => placed_start hstart⟩ ?_ h
  · exact (hrun.2 hlibs).disjoint
  · rintro _ needed s s' - ⟨hn, hs⟩ hstep
    cases hload : loadDependency kernel disk s needed with
    | error e =>
      rw [hload] at hstep
      cases hstep
    | ok result =>
      rw [hload] at hstep
      cases hstep
      exact loadDependency_placed hn hs hload

/-- A library that is larger in memory than the stride, under every name. -/
def largeLibraries : Disk := fun _ => some (oneSegment 0 120 0x4000001)

/-- Two such libraries. -/
theorem loadDependencies_placed_two : ∃ l',
    loadDependencies grantAll largeLibraries (.initial fun _ => 0) [chars ['a'], chars ['b']] =
      .ok l' ∧ l'.objects.length = 2 ∧
    (l'.objects.drop 0).Pairwise (fun a b => ∀ s ∈ a.segments, ∀ s' ∈ b.segments,
      ∀ address, ¬ (s.Covers address ∧ s'.Covers address)) := by
  have hload : ∃ l', loadDependencies grantAll largeLibraries (.initial fun _ => 0)
      [chars ['a'], chars ['b']] = .ok l' ∧ l'.objects.length = 2 ∧
      ∀ a ∈ l'.objects.drop 0, a.Library := ⟨_, rfl, rfl, by decide⟩
  obtain ⟨l', hok, htwo, hlibs⟩ := hload
  exact ⟨l', hok, htwo, (loadDependencies_placed rfl hok hlibs).1⟩

end IUserApps.Loader
