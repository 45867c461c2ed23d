import IUserApps.Loader.Images
import IUserApps.Loops

/-!
# Loaded objects

The loader's table of objects and what puts a file into it: the check of the ELF header, the loop
that maps and fills the segments, and the scan of the dynamic section (`parseDynamic`). A failure is
the text that `fatal` prints before the process exits.

An object keeps the file it was loaded from (`image`), where its tables are read; the name it was
loaded under, whole (`soname`), is no part of the source.
-/

namespace IUserApps.Loader

/-- A page that can be read. -/
def ProtRead : U64 := 1
/-- A page that can be written. -/
def ProtWrite : U64 := 2
/-- A page that can be executed. -/
def ProtExecute : U64 := 4

/-- The contents of the address space. -/
abbrev Memory := U64 → Byte

/-- What the kernel grants: a mapping, or a change of one, at an address, of a size, with a
protection. -/
structure Kernel where
  mmap : U64 → U64 → U64 → Bool
  mprotect : U64 → U64 → U64 → Bool

/-- A segment of an object, in memory. -/
structure Segment where
  address : U64
  size : U64
  protection : U64
deriving DecidableEq, Repr

/-- An object that is loaded. -/
structure Object where
  name : CStr
  soname : CStr
  image : Image
  base : U64
  entry : U64
  /-- Pointers that are null until something sets them. -/
  dynamic : Option U64
  strtab : Option U64
  symtab : Option U64
  symbolCount : BitVec 32
  rela : U64
  relaCount : U64
  jmprel : U64
  jmprelCount : U64
  initArray : U64
  initArrayCount : U64
  init : Option U64
  /-- The addresses of the names it needs. -/
  needed : List U64
  segments : List Segment
  relocated : Bool
  initDone : Bool

/-- A cleared object of a file. -/
def Object.cleared (image : Image) : Object :=
  ⟨[], [], image, 0, 0, none, none, none, 0, 0, 0, 0, 0, 0, 0, none, [], [], false, false⟩

/-- The string at an address in the object's tables. -/
def Object.string (object : Object) (address : U64) : CStr :=
  object.image.tables.string (address - object.base)

/-- The names that the object needs. -/
def Object.neededNames (object : Object) : List CStr := object.needed.map object.string

/-! ## Strings -/

/-- What `copyString` leaves in an array of `capacity` bytes. -/
def copyString (capacity : ℕ) (src : CStr) : CStr := src.take (capacity - 1)

/-- What `appendString` leaves in an array of `capacity` bytes that holds `dst`. -/
def appendString (dst : CStr) (capacity : ℕ) (src : CStr) : CStr :=
  dst ++ src.take (capacity - 1 - dst.length)

/-- Whether two strings are equal. -/
def cstrEqual (a b : CStr) : Bool := decide (a = b)

/-- The bytes of a literal. -/
def chars (text : List Char) : CStr := text.map fun c => BitVec.ofNat 8 c.toNat

/-! ## The object table -/

/-- The loader: the objects, the memory and where the next library goes. -/
structure LoaderState where
  objects : List Object
  nextLibraryBase : U64
  memory : Memory
  /-- For each name that an object needed, the two places, as `loadDependency` returned the second;
  no part of the source. -/
  deps : List (ℕ × ℕ)

/-- The loader before it has registered anything. -/
def LoaderState.initial (memory : Memory) : LoaderState := ⟨[], LIBRARY_BASE, memory, []⟩

/-- The place of the first object of a name. -/
def findObject (objects : List Object) (name : CStr) : Option ℕ :=
  objects.findIdx? fun object => cstrEqual object.name name

/-! ## The dynamic section -/

/-- The variables of the scan of a dynamic section. -/
structure DynamicScan where
  strtab : Option U64
  symtab : Option U64
  sysvHash : Option U64
  rela : U64
  relaSize : U64
  relaEnt : U64
  jmprel : U64
  jmpRelSize : U64
  initArray : U64
  initArraySize : U64
  init : Option U64

/-- One entry of the first scan. -/
def scanEntry (base : U64) (scan : DynamicScan) (entry : DynamicEntry64) :
    Except String DynamicScan :=
  match entry.tag with
  | .strTab => .ok { scan with strtab := some (base + entry.value) }
  | .symTab => .ok { scan with symtab := some (base + entry.value) }
  | .hash => .ok { scan with sysvHash := some (base + entry.value) }
  | .rela => .ok { scan with rela := base + entry.value }
  | .relaSize => .ok { scan with relaSize := entry.value }
  | .relaEnt => .ok { scan with relaEnt := entry.value }
  | .jmpRel => .ok { scan with jmprel := base + entry.value }
  | .pltRelSize => .ok { scan with jmpRelSize := entry.value }
  | .initArray => .ok { scan with initArray := base + entry.value }
  | .initArraySize => .ok { scan with initArraySize := entry.value }
  | .init => .ok { scan with init := some (base + entry.value) }
  | .rel | .relSize | .relEnt => .error "REL relocations are unsupported"
  | .needed | .other => .ok scan

/-- One entry of the second scan, for the names needed. -/
def scanNeeded (strtab : U64) (needed : List U64) (entry : DynamicEntry64) :
    Except String (List U64) :=
  if entry.tag = .needed then
    if MAX_NEEDED ≤ needed.length then .error "too many dependencies"
    else .ok (needed ++ [strtab + entry.value])
  else .ok needed

/-- The scan before the first entry. -/
def DynamicScan.start : DynamicScan :=
  ⟨none, none, none, 0, 0, sizeofRela64, 0, 0, 0, 0, none⟩

/-- Fills in what the dynamic section says; the object's tables are empty without one. -/
def parseDynamic (object : Object) : Except String Object :=
  match object.dynamic with
  | none => .ok object
  | some dynamic =>
    let tables := object.image.tables
    let entries := tables.dynamic (dynamic - object.base)
    do
      let scan ← entries.foldlM (scanEntry object.base) .start
      match scan.strtab, scan.symtab, scan.sysvHash with
      | some strtab, some symtab, some sysvHash =>
        if scan.relaEnt ≠ sizeofRela64 then .error "unexpected RELA entry size"
        else do
          let needed ← entries.foldlM (scanNeeded strtab) []
          .ok { object with
            strtab := some strtab
            symtab := some symtab
            symbolCount := tables.symbolCount (sysvHash - object.base)
            rela := scan.rela
            relaCount := scan.relaSize / sizeofRela64
            jmprel := scan.jmprel
            jmprelCount := scan.jmpRelSize / sizeofRela64
            initArray := scan.initArray
            initArrayCount := scan.initArraySize / 8
            init := scan.init
            needed := needed }
      | _, _, _ => .error "object is missing dynamic tables"

/-! ## Segments -/

/-- The check of a file's ELF header. -/
def validateElf (image : Image) : Bool :=
  let header := image.header
  if image.size < sizeofHeader64 then false
  else if !header.ident || !header.machine ||
      header.programHeaderEntrySize.setWidth 64 ≠ sizeofProgramHeader64 ||
      header.programHeaderCount = 0 then false
  else if header.type ≠ .executable ∧ header.type ≠ .dynamic then false
  else
    let phEnd := header.programHeaderOffset +
      header.programHeaderEntrySize.setWidth 64 * header.programHeaderCount.setWidth 64
    if image.size < phEnd ∨ phEnd < header.programHeaderOffset then false
    else true

/-- The protection that a segment's flags ask for. -/
def protectionFromElf (ph : ProgramHeader64) : U64 :=
  (if ph.flagRead then ProtRead else 0) ||| (if ph.flagWrite then ProtWrite else 0) |||
    (if ph.flagExecute then ProtExecute else 0)

/-- Fresh zeroed pages at an address. -/
def mapMemory (memory : Memory) (address size : U64) : Memory :=
  fun a => if a - address < size then 0 else memory a

/-- Copies bytes of a file into memory, one after another. -/
def copyFromImage (image : Image) (memory : Memory) (target offset size : U64) : Memory :=
  (List.range size.toNat).foldl (fun memory k =>
    Function.update memory (target + BitVec.ofNat 64 k) (image.byte (offset + BitVec.ofNat 64 k)))
    memory

/-- What a load does with the file and with memory. -/
inductive Action
  /-- Reads a program header, `size` bytes at an offset in the file. -/
  | readHeader (offset size : U64)
  /-- Maps a segment's pages and copies `fileSize` bytes from an offset in the file into them. -/
  | loadSegment (mapStart mapSize target offset fileSize : U64)
deriving DecidableEq, Repr

/-- The variables of the loop over the segments. -/
structure Mapping where
  segments : List Segment
  maxAddress : U64
  memory : Memory
  actions : List Action

/-- Where a program header is in the file. -/
def Image.headerOffset (image : Image) (i : ℕ) : U64 :=
  image.header.programHeaderOffset + BitVec.ofNat 64 i * sizeofProgramHeader64

/-- Where the segment of a program header is mapped: the start of its pages. -/
def mapStart (loadBase : U64) (ph : ProgramHeader64) : U64 :=
  alignDown (loadBase + ph.virtualAddress) PAGE_SIZE

/-- The place of a segment in its first page. -/
def pageOffset (loadBase : U64) (ph : ProgramHeader64) : U64 :=
  loadBase + ph.virtualAddress - mapStart loadBase ph

/-- The size of a segment's pages. -/
def mapSize (loadBase : U64) (ph : ProgramHeader64) : U64 :=
  alignUp (pageOffset loadBase ph + ph.memorySize) PAGE_SIZE

/-- One program header of the loop over the segments. -/
def loadSegment (kernel : Kernel) (image : Image) (loadBase : U64) (m : Mapping) (i : ℕ) :
    Except String Mapping :=
  let ph := image.programHeader i
  let read := .readHeader (image.headerOffset i) sizeofProgramHeader64
  if ph.type ≠ .load then .ok { m with actions := m.actions ++ [read] }
  else if ph.memorySize < ph.fileSize ∨ image.size < ph.offset + ph.fileSize then
    .error "bad dependency segment"
  else
    let segmentStart := loadBase + ph.virtualAddress
    let start := mapStart loadBase ph
    let size := mapSize loadBase ph
    if kernel.mmap start size (ProtRead ||| ProtWrite ||| ProtExecute) = false then
      .error "mmap failed"
    else if MAX_SEGMENTS ≤ m.segments.length then .error "too many segments"
    else .ok {
      segments := m.segments ++ [⟨start, size, protectionFromElf ph⟩]
      maxAddress := if m.maxAddress < start + size then start + size else m.maxAddress
      memory := copyFromImage image (mapMemory m.memory start size) segmentStart ph.offset
        ph.fileSize
      actions := m.actions ++ [read, .loadSegment start size segmentStart ph.offset ph.fileSize] }

/-- The loop over the segments. -/
def loadSegments (kernel : Kernel) (image : Image) (loadBase : U64) (memory : Memory) :
    Except String Mapping :=
  (List.range image.header.programHeaderCount.toNat).foldlM (loadSegment kernel image loadBase)
    ⟨[], loadBase, memory, []⟩

/-- The address of the dynamic section, which the last header of its kind gives. -/
def findDynamic (image : Image) (loadBase : U64) : Option U64 :=
  (List.range image.header.programHeaderCount.toNat).foldl (fun dynamic i =>
    if (image.programHeader i).type = .dynamic then
      some (loadBase + (image.programHeader i).virtualAddress)
    else dynamic) none

/-- The reads of the loop that looks for the dynamic section. -/
def findDynamicReads (image : Image) : List Action :=
  (List.range image.header.programHeaderCount.toNat).map fun i =>
    .readHeader (image.headerOffset i) sizeofProgramHeader64

/-- Where a file is loaded: a shared library at the place given, a fixed program where it says. -/
def Image.loadBase (image : Image) (preferredBase : U64) : U64 :=
  if image.header.type = .dynamic then preferredBase else 0

/-- Puts a file into the table. -/
def loadObjectFromMemory (kernel : Kernel) (l : LoaderState) (name : CStr) (image : Image)
    (preferredBase : U64) : Except String (LoaderState × List Action) :=
  if validateElf image = false then .error "invalid ELF dependency"
  else
    let loadBase := image.loadBase preferredBase
    -- `registerObject`.
    if MAX_OBJECTS ≤ l.objects.length then .error "too many loaded objects"
    else do
      let m ← loadSegments kernel image loadBase l.memory
      let nextLibraryBase :=
        if image.header.type = .dynamic then
          alignUp (m.maxAddress + LIBRARY_STRIDE) LIBRARY_STRIDE
        else l.nextLibraryBase
      let object ← parseDynamic { Object.cleared image with
        name := copyString 64 name, soname := name, base := loadBase,
        entry := loadBase + image.header.entry, dynamic := findDynamic image loadBase,
        segments := m.segments }
      .ok (⟨l.objects ++ [object], nextLibraryBase, m.memory, l.deps⟩,
        m.actions ++ findDynamicReads image)

end IUserApps.Loader
