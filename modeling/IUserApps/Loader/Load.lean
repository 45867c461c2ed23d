import IUserApps.Loader.Objects

/-!
# Loading the libraries

`ld_main` registers the main program and then goes through the object table, which grows as it does:
for every name that an object needs it looks the name up (after `resolveSoname`) and loads the file
of that name when no object has it.
-/

namespace IUserApps.Loader

open Loops

/-- The files that can be opened, by their paths. -/
abbrev Disk := CStr → Option Image

/-- The whole of a file. -/
def readWholeFile (disk : Disk) (path : CStr) : Except String Image :=
  match disk path with
  | none => .error "stat failed"
  | some image => .ok image

/-- The name that the program itself is registered under. -/
def mainName : CStr := chars ['<', 'm', 'a', 'i', 'n', '>']
/-- The directory of the libraries. -/
def libPrefix : CStr := chars ['/', 'l', 'i', 'b', '/']
/-- The runtime library. -/
def libInstant : CStr := chars ['l', 'i', 'b', 'i', 'n', 's', 't', 'a', 'n', 't', '.', 's', 'o']

/-- The names that stand for the one runtime library. -/
def aliases : List (CStr × CStr) :=
  [(chars ['l', 'i', 'b', 'm', '.', 's', 'o', '.', '6'], libInstant),
   (chars ['l', 'i', 'b', 'c', '.', 's', 'o', '.', '6'], libInstant),
   (chars ['l', 'i', 'b', 'c', '.', 's', 'o'], libInstant),
   (chars ['l', 'i', 'b', 'p', 't', 'h', 'r', 'e', 'a', 'd', '.', 's', 'o', '.', '0'], libInstant),
   (chars ['l', 'i', 'b', 'd', 'l', '.', 's', 'o', '.', '2'], libInstant),
   (chars ['l', 'i', 'b', 'r', 't', '.', 's', 'o', '.', '1'], libInstant)]

/-- The name of the library that a needed name stands for. -/
def resolveSoname (needed : CStr) : CStr :=
  match aliases.find? fun pair => cstrEqual needed pair.1 with
  | some pair => pair.2
  | none => needed

/-- The path of a library, in its array of 128 bytes. -/
def libraryPath (resolved : CStr) : CStr :=
  appendString (copyString 128 libPrefix) 128 resolved

/-- Finds or loads the object of a name, and where it is. -/
def loadDependency (kernel : Kernel) (disk : Disk) (l : LoaderState) (needed : CStr) :
    Except String (LoaderState × ℕ) :=
  let resolved := resolveSoname needed
  match findObject l.objects resolved with
  | some existing => .ok (l, existing)
  | none => do
    let image ← readWholeFile disk (libraryPath resolved)
    let (l', _) ← loadObjectFromMemory kernel l resolved image l.nextLibraryBase
    .ok (l', l.objects.length)

/-- Loads one name that the object at `i` needs. -/
def loadNeeded (kernel : Kernel) (disk : Disk) (i : ℕ) (l : LoaderState) (needed : CStr) :
    Except String LoaderState := do
  let (l', j) ← loadDependency kernel disk l needed
  .ok { l' with deps := l'.deps ++ [(i, j)] }

/-- The loop over the object table, from a place on; the fuel is the room in the table. -/
def loadFrom (kernel : Kernel) (disk : Disk) : ℕ → ℕ → LoaderState → Except String LoaderState
  | 0, _, l => .ok l
  | fuel + 1, i, l =>
    match l.objects[i]? with
    | none => .ok l
    | some object => do
      let l' ← object.neededNames.foldlM (loadNeeded kernel disk i) l
      loadFrom kernel disk fuel (i + 1) l'

/-- The loading loop of `ld_main`. -/
def loadAll (kernel : Kernel) (disk : Disk) (l : LoaderState) : Except String LoaderState :=
  loadFrom kernel disk MAX_OBJECTS 0 l

/-! ## The main program -/

/-- The types of an auxiliary value. -/
inductive AuxType | phdr | phnum | entry | other
deriving DecidableEq, Repr

/-- An entry of the auxiliary vector, before its null entry. -/
structure AuxEntry64 where
  type : AuxType
  value : U64
deriving DecidableEq, Repr

/-- The last value of a kind, or zero. -/
def auxValue (aux : List AuxEntry64) (type : AuxType) : U64 :=
  aux.foldl (fun value entry => if entry.type = type then entry.value else value) 0

/-- The first program header of a kind among the first `phnum`. -/
def findHeader (image : Image) (phnum : U64) (type : ProgramType) : Option ProgramHeader64 :=
  ((List.range phnum.toNat).map image.programHeader).find? fun ph => decide (ph.type = type)

/-- Registers the program that the kernel has mapped. -/
def registerMainObject (l : LoaderState) (aux : List AuxEntry64) (image : Image) :
    Except String LoaderState :=
  let phdrAddress := auxValue aux .phdr
  let phnum := auxValue aux .phnum
  let entry := auxValue aux .entry
  if phdrAddress = 0 ∨ phnum = 0 ∨ entry = 0 then .error "missing auxv"
  else
    match findHeader image phnum .phdr with
    | none => .error "main object has no PT_PHDR"
    | some phdr =>
      let base := phdrAddress - phdr.virtualAddress
      if MAX_OBJECTS ≤ l.objects.length then .error "too many loaded objects"
      else do
        let main ← parseDynamic { Object.cleared image with
          name := copyString 64 mainName, soname := mainName, base := base, entry := entry,
          dynamic := (findHeader image phnum .dynamic).map fun ph => base + ph.virtualAddress }
        .ok { l with objects := l.objects ++ [main] }

/-! ## The names a file needs -/

/-- The dynamic section of a file. -/
def Image.dynamicEntries (image : Image) : List DynamicEntry64 :=
  match findDynamic image 0 with
  | none => []
  | some address => image.tables.dynamic address

/-- Where the last entry of its kind puts the string table. -/
def stringTable (entries : List DynamicEntry64) : Option U64 :=
  entries.foldl (fun strtab entry => if entry.tag = .strTab then some entry.value else strtab) none

/-- The names of the `DT_NEEDED` entries of a file. -/
def Image.neededNames (image : Image) : List CStr :=
  match stringTable image.dynamicEntries with
  | none => []
  | some strtab => (image.dynamicEntries.filter fun entry => entry.tag = .needed).map fun entry =>
      image.tables.string (strtab + entry.value)

/-- An address relative to a base. -/
theorem base_add_sub (base value : U64) : base + value - base = value := by bv_omega

/-- The dynamic section moves with the load base. -/
theorem findDynamic_base (image : Image) (loadBase : U64) :
    findDynamic image loadBase = (findDynamic image 0).map fun address => loadBase + address := by
  unfold findDynamic
  generalize List.range image.header.programHeaderCount.toNat = is
  suffices key : ∀ dynamic : Option U64,
      is.foldl (fun dynamic i => if (image.programHeader i).type = .dynamic then
        some (loadBase + (image.programHeader i).virtualAddress) else dynamic)
        (dynamic.map fun address => loadBase + address) =
      (is.foldl (fun dynamic i => if (image.programHeader i).type = .dynamic then
        some (0 + (image.programHeader i).virtualAddress) else dynamic) dynamic).map
        fun address => loadBase + address from key none
  induction is with
  | nil => exact fun _ => rfl
  | cons i is ih =>
    intro dynamic
    rw [List.foldl_cons, List.foldl_cons, ← ih]
    split
    · have hzero : (0 : U64) + (image.programHeader i).virtualAddress =
          (image.programHeader i).virtualAddress := by bv_omega
      rw [Option.map_some, hzero]
    · rfl

/-- The first scan finds the string table. -/
theorem scanEntry_strtab {base : U64} {entries : List DynamicEntry64} {scan : DynamicScan}
    (h : entries.foldlM (scanEntry base) .start = .ok scan) :
    scan.strtab = (stringTable entries).map fun value => base + value := by
  refine foldlM_rule (fun done (scan : DynamicScan) =>
    scan.strtab = (stringTable done).map fun value => base + value) rfl ?_ h
  rintro done entry s s' - hs hstep
  unfold stringTable at hs ⊢
  rw [List.foldl_append, List.foldl_cons, List.foldl_nil]
  unfold scanEntry at hstep
  cases htag : entry.tag <;> rw [htag] at hstep <;> cases hstep <;>
    first | exact hs | rw [if_pos rfl, Option.map_some]

/-- The second scan collects the addresses of the names needed. -/
theorem scanNeeded_needed {strtab : U64} {entries : List DynamicEntry64} {needed : List U64}
    (h : entries.foldlM (scanNeeded strtab) [] = .ok needed) :
    needed = (entries.filter fun entry => entry.tag = .needed).map fun entry =>
      strtab + entry.value := by
  refine foldlM_rule (fun done needed => needed =
    (done.filter fun entry : DynamicEntry64 => entry.tag = .needed).map fun entry =>
      strtab + entry.value) rfl ?_ h
  rintro done entry s s' - rfl hstep
  unfold scanNeeded at hstep
  rw [List.filter_append, List.map_append]
  split at hstep
  next htag =>
    split at hstep
    · cases hstep
    · cases hstep
      rw [List.filter_cons_of_pos (by simpa using htag)]
      rfl
  next htag =>
    cases hstep
    rw [List.filter_cons_of_neg (by simpa using htag), List.filter_nil, List.map_nil,
      List.append_nil]

/-- What the scan of the dynamic section leaves as it was. -/
structure Object.SameFile (object object' : Object) : Prop where
  name : object'.name = object.name
  soname : object'.soname = object.soname
  image : object'.image = object.image
  base : object'.base = object.base
  relocated : object'.relocated = object.relocated
  initDone : object'.initDone = object.initDone

/-- The scan of the dynamic section: the file is the same, and the names needed are those of the
file when the dynamic section is. -/
theorem parseDynamic_ok {object object' : Object} (h : parseDynamic object = .ok object')
    (hneeded : object.needed = []) :
    object.SameFile object' ∧
      (object.dynamic = findDynamic object.image object.base →
        object'.neededNames = object.image.neededNames) := by
  unfold parseDynamic at h
  split at h
  next hdynamic =>
    cases h
    refine ⟨⟨rfl, rfl, rfl, rfl, rfl, rfl⟩, fun hsame => ?_⟩
    rw [hdynamic, findDynamic_base] at hsame
    have hnone : findDynamic object.image 0 = none := by simpa using hsame.symm
    unfold Object.neededNames Image.neededNames Image.dynamicEntries
    rw [hneeded, hnone]
    rfl
  next dynamic hdynamic =>
    dsimp only at h
    cases hscan : (object.image.tables.dynamic (dynamic - object.base)).foldlM
        (scanEntry object.base) .start with
    | error e =>
      rw [hscan] at h
      cases h
    | ok scan =>
      rw [hscan] at h
      dsimp only [bind, Except.bind] at h
      split at h
      next strtab symtab sysvHash hstrtab hsymtab hhash =>
        split at h
        · cases h
        · cases hnames : (object.image.tables.dynamic (dynamic - object.base)).foldlM
              (scanNeeded strtab) [] with
          | error e =>
            rw [hnames] at h
            cases h
          | ok needed =>
            rw [hnames] at h
            cases h
            refine ⟨⟨rfl, rfl, rfl, rfl, rfl, rfl⟩, fun hsame => ?_⟩
            -- The section lies at the same place of the file, whatever the base.
            rw [hdynamic, findDynamic_base] at hsame
            obtain ⟨address, haddress, hmoved⟩ := Option.map_eq_some_iff.1 hsame.symm
            have hentries : object.image.dynamicEntries =
                object.image.tables.dynamic (dynamic - object.base) := by
              unfold Image.dynamicEntries
              rw [haddress, ← hmoved, base_add_sub]
            have htable := scanEntry_strtab hscan
            rw [hstrtab] at htable
            obtain ⟨value, hvalue, hstart⟩ := Option.map_eq_some_iff.1 htable.symm
            unfold Object.neededNames Image.neededNames
            rw [hentries, hvalue, scanNeeded_needed hnames, ← hstart, List.map_map]
            refine List.map_congr_left fun entry _ => ?_
            show object.image.tables.string (object.base + value + entry.value - object.base) = _
            rw [BitVec.add_assoc, base_add_sub]
      · cases h

/-- A load that ends adds one object, of the file and the name given. -/
theorem loadObject_objects {kernel : Kernel} {l l' : LoaderState} {name : CStr} {image : Image}
    {preferredBase : U64} {actions : List Action}
    (h : loadObjectFromMemory kernel l name image preferredBase = .ok (l', actions)) :
    ∃ object : Object, l'.objects = l.objects ++ [object] ∧ object.name = copyString 64 name ∧
      object.soname = name ∧ object.image = image ∧ object.neededNames = image.neededNames ∧
      object.initDone = false ∧ l'.deps = l.deps ∧ l.objects.length < MAX_OBJECTS := by
  unfold loadObjectFromMemory at h
  split at h
  · cases h
  · dsimp only at h
    split at h
    · cases h
    next hroom =>
      cases hm : loadSegments kernel image (image.loadBase preferredBase) l.memory with
      | error e =>
        rw [hm] at h
        cases h
      | ok m =>
        rw [hm] at h
        dsimp only [bind, Except.bind] at h
        split at h
        · cases h
        next object hobject =>
          cases h
          obtain ⟨hfile, hnames⟩ := parseDynamic_ok hobject rfl
          exact ⟨object, rfl, hfile.name, hfile.soname, hfile.image, hnames rfl, hfile.initDone,
            rfl, Nat.not_le.1 hroom⟩

/-- One name that is looked up: it is found, or its file is loaded. -/
theorem loadNeeded_ok {kernel : Kernel} {disk : Disk} {i : ℕ} {l l' : LoaderState} {needed : CStr}
    (h : loadNeeded kernel disk i l needed = .ok l') :
    (∃ j, findObject l.objects (resolveSoname needed) = some j ∧
      l' = { l with deps := l.deps ++ [(i, j)] }) ∨
    (findObject l.objects (resolveSoname needed) = none ∧
      ∃ image l1 actions, disk (libraryPath (resolveSoname needed)) = some image ∧
        loadObjectFromMemory kernel l (resolveSoname needed) image l.nextLibraryBase =
          .ok (l1, actions) ∧
        l' = { l1 with deps := l1.deps ++ [(i, l.objects.length)] }) := by
  unfold loadNeeded loadDependency readWholeFile at h
  dsimp only at h
  cases hf : findObject l.objects (resolveSoname needed) with
  | some j =>
    rw [hf] at h
    cases h
    exact Or.inl ⟨j, rfl, rfl⟩
  | none =>
    rw [hf] at h
    cases hdisk : disk (libraryPath (resolveSoname needed)) with
    | none =>
      rw [hdisk] at h
      cases h
    | some image =>
      rw [hdisk] at h
      dsimp only [bind, Except.bind] at h
      cases hload : loadObjectFromMemory kernel l (resolveSoname needed) image
          l.nextLibraryBase with
      | error e =>
        rw [hload] at h
        cases h
      | ok result =>
        rw [hload] at h
        cases h
        exact Or.inr ⟨rfl, image, result.1, result.2, rfl, hload, rfl⟩

/-- What every look-up keeps holds after the loading loop. -/
theorem loadFrom_rule {kernel : Kernel} {disk : Disk} (P : LoaderState → Prop)
    (hstep : ∀ i l l' needed, P l → loadNeeded kernel disk i l needed = .ok l' → P l')
    {fuel i : ℕ} {l l' : LoaderState} (h : loadFrom kernel disk fuel i l = .ok l') (hl : P l) :
    P l' := by
  induction fuel generalizing i l with
  | zero =>
    cases h
    exact hl
  | succ fuel ih =>
    unfold loadFrom at h
    split at h
    · cases h
      exact hl
    · dsimp only [bind, Except.bind] at h
      split at h
      · cases h
      next l1 hl1 =>
        exact ih h (foldlM_rule (fun _ l => P l) hl
          (fun _ needed s s' _ hs hs' => hstep _ s s' needed hs hs') hl1)

/-- The main program is the first object. -/
theorem registerMain_objects {memory : Memory} {aux : List AuxEntry64} {image : Image}
    {l : LoaderState} (h : registerMainObject (.initial memory) aux image = .ok l) :
    ∃ main, l.objects = [main] ∧ main.name = mainName ∧ main.initDone = false ∧ l.deps = [] := by
  unfold registerMainObject at h
  dsimp only at h
  split at h
  · cases h
  · split at h
    · cases h
    · split at h
      · cases h
      · dsimp only [bind, Except.bind] at h
        split at h
        · cases h
        next main hmain =>
          cases h
          obtain ⟨hfile, -⟩ := parseDynamic_ok hmain rfl
          exact ⟨main, rfl, hfile.name, hfile.initDone, rfl⟩

end IUserApps.Loader
