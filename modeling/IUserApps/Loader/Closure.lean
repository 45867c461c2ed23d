import IUserApps.Loader.Bounds
import IUserApps.Loader.Load
import IUserApps.Runs
import IUserApps.Worklist

/-!
# The libraries that are loaded

The `DT_NEEDED` graph has the main program (`none`) and the libraries by their resolved names as its
nodes, and the object table should come to hold what can be reached in it from the main program.
The table is a worklist over this graph, except that it compares names with its own copies, which
are cut to 63 bytes and of which the first is `<main>`. `loadAll_closure_iff` says for which graphs
this makes no difference.
-/

namespace IUserApps.Loader

open Loops Runs Worklist

/-- The file of a library. -/
def library (disk : Disk) (name : CStr) : Option Image := disk (libPrefix ++ name)

/-- The resolved names that a node needs. -/
def needs (disk : Disk) (main : Object) : Option CStr → List (Option CStr)
  | none => main.neededNames.map fun name => some (resolveSoname name)
  | some name =>
    match library disk name with
    | none => []
    | some image => image.neededNames.map fun name => some (resolveSoname name)

/-- The main program needs a node, directly or transitively. -/
def Needed (disk : Disk) (main : Object) (node : Option CStr) : Prop :=
  Reaches (needs disk main) none node

/-- The table holds the main program and then one object for each resolved name needed, of the file
of that name. -/
def HoldsClosure (disk : Disk) (main : Object) (objects : List Object) : Prop :=
  ∃ libs, objects = main :: libs ∧ (libs.map Object.soname).Nodup ∧
    (∀ name, name ∈ libs.map Object.soname ↔ Needed disk main (some name)) ∧
    ∀ object ∈ libs, library disk object.soname = some object.image

/-- The names that are looked up, breadth first from the main program, with their repetitions. -/
def lookedUp (disk : Disk) (main : Object) : List (Option CStr) :=
  lookups (needs disk main) MAX_OBJECTS 0 [none]

/-- A list of names in which cutting and comparing them makes no difference. -/
structure NamesKept (disk : Disk) (names : List (Option CStr)) : Prop where
  /-- No library is called `<main>`. -/
  notMain : some mainName ∉ names
  /-- A name longer than an object's own copy of it comes up once. -/
  once : ∀ name, 64 ≤ name.length → names.count (some name) ≤ 1
  /-- It comes up after the name that its first 63 bytes are, if that does. -/
  later : ∀ name, 64 ≤ name.length → some name ∈ names → some (name.take 63) ∈ names →
    names.idxOf (some (name.take 63)) < names.idxOf (some name)
  /-- The path that is cut to 127 bytes leads to the library's file. -/
  path : ∀ name, some name ∈ names → disk (libraryPath name) = library disk name

/-- A file that the loader takes wherever it puts it: the header is valid, the segments are granted
and fit the table of segments, and the dynamic section is complete. -/
def Loadable (kernel : Kernel) (image : Image) : Prop :=
  validateElf image = true ∧
    (∀ loadBase memory, ∃ m, loadSegments kernel image loadBase memory = .ok m) ∧
    ∀ object : Object, object.image = image →
      object.dynamic = findDynamic image object.base → ∃ parsed, parseDynamic object = .ok parsed

/-! ## The table -/

/-- The nodes of a table. -/
def nodesOf (libs : List Object) : List (Option CStr) :=
  none :: libs.map fun object => some object.soname

/-- What holds of the libraries in the table: each has a cut copy of its name, is of the file at its
path, and no object before it had its name. -/
structure Table (disk : Disk) (main : Object) (libs : List Object) : Prop where
  name : ∀ object ∈ libs, object.name = object.soname.take 63
  file : ∀ object ∈ libs, disk (libraryPath object.soname) = some object.image
  neededNames : ∀ object ∈ libs, object.neededNames = object.image.neededNames
  fresh : (main :: libs).Pairwise fun a b => a.name ≠ b.soname

/-- A name is that of the main program or the cut copy of a library's. -/
def CutMem (nodes : List (Option CStr)) (name : CStr) : Prop :=
  name = mainName ∨ ∃ long, some long ∈ nodes ∧ long.take 63 = name

/-- A name is a node if a library has it. -/
theorem mem_nodesOf {libs : List Object} {name : CStr} :
    some name ∈ nodesOf libs ↔ name ∈ libs.map Object.soname := by
  unfold nodesOf
  rw [List.mem_cons, List.mem_map, List.mem_map]
  simp

section Run

variable {kernel : Kernel} {disk : Disk} {main : Object} {libs : List Object}

/-- A table without libraries. -/
theorem Table.empty (disk : Disk) (main : Object) : Table disk main [] :=
  ⟨fun _ h => absurd h List.not_mem_nil, fun _ h => absurd h List.not_mem_nil,
    fun _ h => absurd h List.not_mem_nil, List.pairwise_singleton _ _⟩

/-- The look-up finds a name exactly when the nodes have it cut. -/
theorem findObject_eq_none (hmain : main.name = mainName) (ht : Table disk main libs)
    (name : CStr) : findObject (main :: libs) name = none ↔ ¬ CutMem (nodesOf libs) name := by
  unfold findObject cstrEqual CutMem
  rw [List.findIdx?_eq_none_iff]
  constructor
  · rintro hnone (rfl | ⟨long, hmem, rfl⟩)
    · have h := hnone main List.mem_cons_self
      simp [hmain] at h
    · obtain ⟨object, hobject, rfl⟩ := List.mem_map.1 (mem_nodesOf.1 hmem)
      have h := hnone object (List.mem_cons_of_mem _ hobject)
      simp [ht.name object hobject] at h
  · intro hnot object hobject
    rw [decide_eq_false_iff_not]
    rintro rfl
    apply hnot
    rcases List.mem_cons.1 hobject with rfl | hlib
    · exact Or.inl hmain
    · exact Or.inr ⟨object.soname, mem_nodesOf.2 (List.mem_map_of_mem hlib),
        (ht.name object hlib).symm⟩

/-- The names of the table change by a node that is added when it is not found. -/
structure Grows (disk : Disk) (main : Object) (libs : List Object) (name : CStr)
    (libs' : List Object) : Prop where
  table : Table disk main libs'
  keep : CutMem (nodesOf libs) name → libs' = libs
  grow : ¬ CutMem (nodesOf libs) name → nodesOf libs' = nodesOf libs ++ [some name]

/-- One name that is looked up, and loaded when it is not found. -/
theorem loadNeeded_grows {l l' : LoaderState} {i : ℕ} {needed : CStr} (hmain : main.name = mainName)
    (ht : Table disk main libs) (hl : l.objects = main :: libs)
    (h : loadNeeded kernel disk i l needed = .ok l') :
    ∃ libs', l'.objects = main :: libs' ∧ libs <+: libs' ∧
      Grows disk main libs (resolveSoname needed) libs' := by
  have hfind := findObject_eq_none hmain ht (resolveSoname needed)
  rw [← hl] at hfind
  -- Either the name is found in the table, or its file is loaded behind it.
  rcases loadNeeded_ok h with ⟨j, hj, rfl⟩ | ⟨hnone, image, l1, actions, hdisk, hload, rfl⟩
  · have hmem : CutMem (nodesOf libs) (resolveSoname needed) := by
      by_contra hnot
      rw [hfind.2 hnot] at hj
      cases hj
    exact ⟨libs, hl, List.prefix_rfl, ht, fun _ => rfl, fun hnot => absurd hmem hnot⟩
  · have hnot := hfind.1 hnone
    obtain ⟨object, hobjects, hname, hsoname, himage, hnames, -⟩ := loadObject_objects hload
    refine ⟨libs ++ [object], by rw [hobjects, hl, List.cons_append],
      List.prefix_append _ _, ⟨?_, ?_, ?_, ?_⟩, fun hmem => absurd hmem hnot, fun _ => ?_⟩
    · intro o ho
      rcases List.mem_append.1 ho with ho | ho
      · exact ht.name o ho
      · rw [List.mem_singleton.1 ho, hname, hsoname]
        rfl
    · intro o ho
      rcases List.mem_append.1 ho with ho | ho
      · exact ht.file o ho
      · rw [List.mem_singleton.1 ho, hsoname, hdisk, himage]
    · intro o ho
      rcases List.mem_append.1 ho with ho | ho
      · exact ht.neededNames o ho
      · rw [List.mem_singleton.1 ho, hnames, himage]
    · -- The name of the new object is none of the names that were compared with it.
      rw [← List.cons_append, List.pairwise_append]
      refine ⟨ht.fresh, List.pairwise_singleton _ _, fun a ha b hb => ?_⟩
      rw [List.mem_singleton.1 hb, hsoname]
      intro heq
      apply hnot
      rcases List.mem_cons.1 ha with rfl | ha
      · exact Or.inl (by rw [← heq, hmain])
      · exact Or.inr ⟨a.soname, mem_nodesOf.2 (List.mem_map_of_mem ha), by
          rw [← ht.name a ha, heq]⟩
    · unfold nodesOf
      rw [List.map_append, List.map_singleton, hsoname, List.cons_append]

/-! ## In step with the graph -/

/-- Cutting and comparing a name gives what comparing it whole does. -/
def Agrees (seen : List (Option CStr)) (node : Option CStr) : Prop :=
  ∀ name, node = some name → (CutMem seen name ↔ some name ∈ seen)

/-- The table holds the nodes of a list, in their order. -/
def Follows (disk : Disk) (main : Object) (l : LoaderState) (seen : List (Option CStr)) : Prop :=
  ∃ libs, l.objects = main :: libs ∧ Table disk main libs ∧ nodesOf libs = seen

/-- The node of a name that is looked up. -/
def nodeOf (needed : CStr) : Option CStr := some (resolveSoname needed)

/-- Where cutting makes no difference a table that grows by a name is the list with its node. -/
theorem Grows.nodes {libs' : List Object} {name : CStr} (h : Grows disk main libs name libs')
    (hagrees : Agrees (nodesOf libs) (some name)) :
    nodesOf libs' = add (nodesOf libs) (some name) := by
  have hiff := hagrees name rfl
  unfold add
  split
  next hmem => rw [h.keep (hiff.2 hmem)]
  next hmem => exact h.grow fun hcut => hmem (hiff.1 hcut)

/-- A loadable file finds its place in a table with room. -/
theorem loadObject_succeeds {l : LoaderState} {image : Image} (h : Loadable kernel image)
    (hroom : l.objects.length < MAX_OBJECTS) (name : CStr) (preferredBase : U64) :
    ∃ result, loadObjectFromMemory kernel l name image preferredBase = .ok result := by
  obtain ⟨hvalid, hsegments, hparse⟩ := h
  obtain ⟨m, hm⟩ := hsegments (image.loadBase preferredBase) l.memory
  unfold loadObjectFromMemory
  rw [if_neg (by rw [hvalid]; decide)]
  dsimp only
  rw [if_neg (Nat.not_le.2 hroom), hm]
  dsimp only [bind, Except.bind]
  obtain ⟨object, hobject⟩ := hparse { Object.cleared image with
    name := copyString 64 name, soname := name, base := image.loadBase preferredBase,
    entry := image.loadBase preferredBase + image.header.entry,
    dynamic := findDynamic image (image.loadBase preferredBase), segments := m.segments } rfl rfl
  rw [hobject]
  exact ⟨_, rfl⟩

/-- A name whose file can be loaded does not stop the loader. -/
theorem loadNeeded_succeeds {l : LoaderState} {i : ℕ} {needed : CStr} {image : Image}
    (hdisk : disk (libraryPath (resolveSoname needed)) = some image)
    (hload : Loadable kernel image)
    (hroom : findObject l.objects (resolveSoname needed) = none →
      l.objects.length < MAX_OBJECTS) :
    ∃ l', loadNeeded kernel disk i l needed = .ok l' := by
  unfold loadNeeded loadDependency readWholeFile
  dsimp only
  cases hf : findObject l.objects (resolveSoname needed) with
  | some j => exact ⟨_, rfl⟩
  | none =>
    obtain ⟨result, hresult⟩ := loadObject_succeeds hload (hroom hf) (resolveSoname needed)
      l.nextLibraryBase
    rw [hdisk]
    dsimp only [bind, Except.bind]
    rw [hresult]
    exact ⟨_, rfl⟩

/-- The names that an object needs are those of its node. -/
theorem Follows.needs {l : LoaderState} {seen : List (Option CStr)} (h : Follows disk main l seen)
    (hpath : ∀ name, some name ∈ seen → disk (libraryPath name) = library disk name) (i : ℕ) :
    (l.objects[i]? = none ∧ seen[i]? = none) ∨
      ∃ object node, l.objects[i]? = some object ∧ seen[i]? = some node ∧
        object.neededNames.map nodeOf = Loader.needs disk main node := by
  obtain ⟨libs, hl, ht, rfl⟩ := h
  rw [hl]
  unfold nodesOf
  cases i with
  | zero => exact Or.inr ⟨main, none, rfl, rfl, rfl⟩
  | succ i =>
    rw [List.getElem?_cons_succ, List.getElem?_cons_succ, List.getElem?_map]
    cases hobject : libs[i]? with
    | none => exact Or.inl ⟨rfl, rfl⟩
    | some object =>
      refine Or.inr ⟨object, some object.soname, rfl, rfl, ?_⟩
      have hmem : object ∈ libs := List.mem_of_getElem? hobject
      have hfile := ht.file object hmem
      rw [hpath object.soname (mem_nodesOf.2 (List.mem_map_of_mem hmem))] at hfile
      unfold Loader.needs
      dsimp only
      rw [hfile, ht.neededNames object hmem]
      rfl

end Run

section Forward

variable {kernel : Kernel} {disk : Disk} {main : Object}
  (hmain : main.name = mainName)
  (hpath : ∀ name, Needed disk main (some name) → disk (libraryPath name) = library disk name)
  (hload : ∀ name, Needed disk main (some name) →
    ∃ image, library disk name = some image ∧ Loadable kernel image)
  {nodes : List (Option CStr)} (hnodes : ∀ node, Needed disk main node → node ∈ nodes)
  (hfits : nodes.length ≤ MAX_OBJECTS)

include hmain hpath hload hnodes hfits

/-- The names that one object needs are looked up in step with the graph. -/
theorem names_follow {i : ℕ} {names : List CStr} {l : LoaderState} {seen : List (Option CStr)}
    (h : Follows disk main l seen) (hnodup : seen.Nodup) (hseen : ∀ node ∈ seen, Needed disk main node)
    (hneeded : ∀ needed ∈ names, Needed disk main (nodeOf needed))
    (hagree : Along add Agrees seen (names.map nodeOf)) :
    ∃ l', names.foldlM (loadNeeded kernel disk i) l = .ok l' ∧
      Follows disk main l' ((names.map nodeOf).foldl add seen) := by
  induction names generalizing l seen with
  | nil => exact ⟨l, rfl, h⟩
  | cons needed names ih =>
    obtain ⟨libs, hl, ht, rfl⟩ := h
    have hnode : Needed disk main (nodeOf needed) := hneeded needed List.mem_cons_self
    obtain ⟨image, hlibrary, hloadable⟩ := hload _ hnode
    -- A node that is not found is new, so that there is room for it.
    have hroom : findObject l.objects (resolveSoname needed) = none →
        l.objects.length < MAX_OBJECTS := by
      intro hnone
      rw [hl, findObject_eq_none hmain ht] at hnone
      have hnew : nodeOf needed ∉ nodesOf libs := fun hmem =>
        hnone ((hagree.1 _ rfl).2 hmem)
      have hle : (nodeOf needed :: nodesOf libs).length ≤ nodes.length := by
        refine ((List.nodup_cons.2 ⟨hnew, hnodup⟩).subperm ?_).length_le
        intro node hmem
        apply hnodes
        rcases List.mem_cons.1 hmem with rfl | hmem
        · exact hnode
        · exact hseen node hmem
      rw [hl]
      simp only [nodesOf, List.length_cons, List.length_map] at hle ⊢
      omega
    obtain ⟨l1, hl1⟩ := loadNeeded_succeeds (i := i) ((hpath _ hnode).trans hlibrary) hloadable hroom
    obtain ⟨libs1, hobjects, -, hgrows⟩ := loadNeeded_grows hmain ht hl hl1
    have hnodes1 := hgrows.nodes hagree.1
    obtain ⟨l', hl', hfollows⟩ := ih (l := l1) ⟨libs1, hobjects, hgrows.table, hnodes1⟩
      (nodup_add hnodup _)
      (fun node hmem => by
        rcases mem_add.1 hmem with hmem | rfl
        · exact hseen node hmem
        · exact hnode)
      (fun needed' hmem => hneeded needed' (List.mem_cons_of_mem _ hmem)) hagree.2
    exact ⟨l', foldlM_cons_ok.2 ⟨l1, hl1, hl'⟩, hfollows⟩

/-- The loop over the table runs in step with the scan of the graph. -/
theorem loadFrom_follows {fuel i : ℕ} {l : LoaderState} {seen : List (Option CStr)}
    (h : Follows disk main l seen) (hnodup : seen.Nodup) (hseen : ∀ node ∈ seen, Needed disk main node)
    (hagree : Along add Agrees seen (lookups (needs disk main) fuel i seen)) :
    ∃ l', loadFrom kernel disk fuel i l = .ok l' ∧
      Follows disk main l' (scan (needs disk main) fuel i seen) := by
  -- By induction on the fuel: the loop takes the table's entry as the scan takes the node.
  induction fuel generalizing i l seen with
  | zero => exact ⟨l, rfl, h⟩
  | succ fuel ih =>
    unfold loadFrom scan
    unfold lookups at hagree
    rcases h.needs (fun name hmem => hpath name (hseen _ hmem)) i with
      ⟨hobject, hnode⟩ | ⟨object, node, hobject, hnode, hneeds⟩
    · rw [hobject, hnode]
      exact ⟨l, rfl, h⟩
    · rw [hnode] at hagree
      rw [hobject, hnode]
      dsimp only at hagree ⊢
      rw [along_append, ← hneeds] at hagree
      rw [← hneeds]
      -- What an object that is needed needs is needed.
      have hneeded : ∀ needed ∈ object.neededNames, Needed disk main (nodeOf needed) := by
        intro needed hmem
        refine (hseen node (List.mem_of_getElem? hnode)).tail ?_
        show nodeOf needed ∈ needs disk main node
        rw [← hneeds]
        exact List.mem_map_of_mem hmem
      obtain ⟨l1, hl1, hfollows⟩ := names_follow hmain hpath hload hnodes hfits (i := i) h hnodup
        hseen hneeded hagree.1
      obtain ⟨l', hl', hfollows'⟩ := ih (i := i + 1) hfollows (nodup_foldl_add hnodup _)
        (fun node' hmem => by
          rcases mem_foldl_add.1 hmem with hmem | hmem
          · exact hseen node' hmem
          · obtain ⟨needed, hin, rfl⟩ := List.mem_map.1 hmem
            exact hneeded needed hin) hagree.2
      refine ⟨l', ?_, hfollows'⟩
      rw [hl1]
      exact hl'

end Forward

/-! ## Back from a table that holds the closure -/

/-- The table keeps what is in it. -/
theorem loadNeeded_extends {kernel : Kernel} {disk : Disk} {i : ℕ} {l l' : LoaderState}
    {needed : CStr} (h : loadNeeded kernel disk i l needed = .ok l') :
    l.objects <+: l'.objects := by
  rcases loadNeeded_ok h with ⟨j, -, rfl⟩ | ⟨-, image, l1, actions, -, hload, rfl⟩
  · exact List.prefix_rfl
  · obtain ⟨object, hobjects, -⟩ := loadObject_objects hload
    show l.objects <+: l1.objects
    rw [hobjects]
    exact List.prefix_append _ _

/-- Loading the needed names adds objects behind those that are there. -/
theorem names_extend {kernel : Kernel} {disk : Disk} {i : ℕ} {l l' : LoaderState}
    {names : List CStr} (h : names.foldlM (loadNeeded kernel disk i) l = .ok l') :
    l.objects <+: l'.objects :=
  foldlM_rule (fun _ (l1 : LoaderState) => l.objects <+: l1.objects) List.prefix_rfl
    (fun _ _ _ _ _ hs hstep => hs.trans (loadNeeded_extends hstep)) h

/-- Loading adds objects behind those that are there. -/
theorem loadFrom_extends {kernel : Kernel} {disk : Disk} {fuel i : ℕ} {l l' : LoaderState}
    (h : loadFrom kernel disk fuel i l = .ok l') : l.objects <+: l'.objects :=
  loadFrom_rule (fun l1 => l.objects <+: l1.objects)
    (fun _ _ _ _ hs hstep => hs.trans (loadNeeded_extends hstep)) h List.prefix_rfl

section Backward

variable {kernel : Kernel} {disk : Disk} {main : Object} (hmain : main.name = mainName)
  {last : List Object} (hlast : Table disk main last)
  (hclosure : HoldsClosure disk main (main :: last))

include hmain hlast hclosure

/-- In a run towards the closure, cutting makes no difference for a name that is looked up. -/
theorem agrees_of_closure {libs libs' : List Object} {name : CStr}
    (hgrows : Grows disk main libs name libs') (hext : libs' <+: last) (hkeep : libs <+: libs')
    (hneeded : Needed disk main (some name)) : Agrees (nodesOf libs) (some name) := by
  obtain ⟨libs'', heq, hnodup, hnames, -⟩ := hclosure
  obtain rfl : last = libs'' := (List.cons.inj heq).2
  intro name' hname
  cases hname
  constructor
  · -- A name that is found is never loaded later, and it has to be in the table.
    intro hcut
    by_contra hmem
    obtain ⟨object, hobject, hsoname⟩ := List.mem_map.1 ((hnames name).2 hneeded)
    have hsplit := hkeep.trans hext
    obtain ⟨rest, rfl⟩ := hsplit
    have hrest : object ∈ rest := by
      rcases List.mem_append.1 hobject with h | h
      · exact absurd (mem_nodesOf.2 (List.mem_map.2 ⟨object, h, hsoname⟩)) hmem
      · exact h
    have hfresh := hlast.fresh
    rw [← List.cons_append, List.pairwise_append] at hfresh
    have hne : ∀ o ∈ main :: libs, o.name ≠ name := fun o ho => by
      rw [← hsoname]
      exact hfresh.2.2 o ho object hrest
    rcases hcut with rfl | ⟨long, hlong, rfl⟩
    · exact hne main List.mem_cons_self hmain
    · obtain ⟨o, ho, rfl⟩ := List.mem_map.1 (mem_nodesOf.1 hlong)
      exact hne o (List.mem_cons_of_mem _ ho)
        (hlast.name o (List.mem_append_left _ ho))
  · -- A name that is in the table and not found is loaded again.
    intro hmem
    by_contra hcut
    have hgrow := hgrows.grow hcut
    have htwice : (libs'.map Object.soname).Nodup := hnodup.sublist (hext.sublist.map _)
    have hnodes : (nodesOf libs').Nodup := by
      refine List.nodup_cons.2 ⟨by simp, ?_⟩
      have hsome := htwice.map (Option.some_injective CStr)
      rwa [List.map_map] at hsome
    rw [hgrow] at hnodes
    exact (List.nodup_append.1 hnodes).2.2 _ hmem _ (List.mem_singleton_self _) rfl

/-- The names that one object needs, in a run towards the closure. -/
theorem names_back {i : ℕ} {names : List CStr} {l l' : LoaderState} {seen : List (Option CStr)}
    (h : Follows disk main l seen) (hrun : names.foldlM (loadNeeded kernel disk i) l = .ok l')
    (hext : l'.objects <+: main :: last)
    (hneeded : ∀ needed ∈ names, Needed disk main (nodeOf needed)) :
    Along add Agrees seen (names.map nodeOf) ∧
      Follows disk main l' ((names.map nodeOf).foldl add seen) := by
  induction names generalizing l seen with
  | nil =>
    cases hrun
    exact ⟨trivial, h⟩
  | cons needed names ih =>
    obtain ⟨l1, hl1, hrest⟩ := foldlM_cons_ok.1 hrun
    obtain ⟨libs, hl, ht, rfl⟩ := h
    obtain ⟨libs1, hobjects, hkeep, hgrows⟩ := loadNeeded_grows hmain ht hl hl1
    have hext1 : libs1 <+: last := by
      have h1 := (names_extend hrest).trans hext
      rw [hobjects] at h1
      exact (List.cons_prefix_cons.1 h1).2
    have hagrees := agrees_of_closure hmain hlast hclosure hgrows hext1 hkeep
      (hneeded needed List.mem_cons_self)
    obtain ⟨halong, hfollows⟩ := ih ⟨libs1, hobjects, hgrows.table, hgrows.nodes hagrees⟩ hrest
      fun needed' hmem => hneeded needed' (List.mem_cons_of_mem _ hmem)
    exact ⟨⟨hagrees, halong⟩, hfollows⟩

/-- The loop over the table, in a run towards the closure. -/
theorem loadFrom_back {fuel i : ℕ} {l l' : LoaderState} {seen : List (Option CStr)}
    (h : Follows disk main l seen) (hrun : loadFrom kernel disk fuel i l = .ok l')
    (hext : l'.objects <+: main :: last) (hseen : ∀ node ∈ seen, Needed disk main node)
    (hpath : ∀ name, Needed disk main (some name) → disk (libraryPath name) = library disk name) :
    Along add Agrees seen (lookups (needs disk main) fuel i seen) := by
  induction fuel generalizing i l seen with
  | zero => trivial
  | succ fuel ih =>
    unfold loadFrom at hrun
    unfold lookups
    rcases h.needs (fun name hmem => hpath name (hseen _ hmem)) i with
      ⟨hobject, hnode⟩ | ⟨object, node, hobject, hnode, hneeds⟩
    · rw [hnode]
      trivial
    · rw [hobject] at hrun
      rw [hnode]
      dsimp only [bind, Except.bind] at hrun ⊢
      rw [along_append, ← hneeds]
      -- What an object that is needed needs is needed.
      have hneeded : ∀ needed ∈ object.neededNames, Needed disk main (nodeOf needed) := by
        intro needed hmem
        refine (hseen node (List.mem_of_getElem? hnode)).tail ?_
        show nodeOf needed ∈ needs disk main node
        rw [← hneeds]
        exact List.mem_map_of_mem hmem
      split at hrun
      · cases hrun
      next l1 hl1 =>
        obtain ⟨halong, hfollows⟩ := names_back hmain hlast hclosure h hl1
          ((loadFrom_extends hrun).trans hext) hneeded
        refine ⟨halong, ih (i := i + 1) hfollows hrun fun node' hmem => ?_⟩
        rcases mem_foldl_add.1 hmem with hmem | hmem
        · exact hseen node' hmem
        · obtain ⟨needed, hin, rfl⟩ := List.mem_map.1 hmem
          exact hneeded needed hin

end Backward

/-! ## The names for which it makes no difference -/

/-- The names that have come up before one of a list. -/
theorem cutMem_before {names : List (Option CStr)} {name : CStr} :
    CutMem (names.foldl add [none]) name ↔ CutMem names name := by
  unfold CutMem
  simp [mem_foldl_add]

/-- Cutting makes no difference along a list of look-ups if and only if the list keeps its names. -/
theorem along_agrees_iff {names : List (Option CStr)} :
    Along add Agrees [none] names ↔
      some mainName ∉ names ∧
      (∀ name, 64 ≤ name.length → names.count (some name) ≤ 1) ∧
      ∀ name, 64 ≤ name.length → some name ∈ names → some (name.take 63) ∈ names →
        names.idxOf (some (name.take 63)) < names.idxOf (some name) := by
  -- What has been seen at a look-up is what stands before it in the list.
  have hstep : Along add Agrees [none] names ↔ ∀ before name after,
      names = before ++ some name :: after → (CutMem before name ↔ some name ∈ before) := by
    rw [along_iff]
    constructor
    · intro h before name after hsplit
      have hagrees := h before (some name) after hsplit name rfl
      rw [cutMem_before, mem_foldl_add] at hagrees
      simpa using hagrees
    · intro h before node after hsplit name hnode
      rw [hnode] at hsplit
      rw [cutMem_before, mem_foldl_add, h before name after hsplit]
      simp
  rw [hstep]
  constructor
  · intro h
    refine ⟨fun hmem => ?_, fun name hlong => ?_, fun name hlong hmem hcut => ?_⟩
    · -- The main object's name is found cut at its first place.
      obtain ⟨before, after, hsplit, hfirst⟩ := List.eq_append_cons_of_mem hmem
      exact hfirst ((h before mainName after hsplit).1 (Or.inl rfl))
    · -- At its second place a long name has come up before and is found cut by nothing.
      by_contra hcount
      have hmem : some name ∈ names := List.count_pos_iff.1 (by omega)
      obtain ⟨before, after, hsplit, hfirst⟩ := List.eq_append_cons_of_mem hmem
      have hagain : some name ∈ after := by
        rw [hsplit, List.count_append, List.count_cons_self, List.count_eq_zero_of_not_mem hfirst]
          at hcount
        exact List.count_pos_iff.1 (by omega)
      obtain ⟨between, rest, hafter, -⟩ := List.eq_append_cons_of_mem hagain
      have hiff := h (before ++ some name :: between) name rest (by rw [hsplit, hafter]; simp)
      rcases hiff.2 (by simp) with hname | ⟨long, -, hname⟩
      · rw [hname] at hlong
        exact absurd hlong (by decide)
      · have hlen := congrArg List.length hname
        rw [List.length_take] at hlen
        omega
    · -- Were the long name before its cut, the cut would be found the first time.
      obtain ⟨before, after, hsplit, hfirst⟩ := List.eq_append_cons_of_mem hcut
      have hnot : some name ∉ before := fun hbefore =>
        hfirst ((h before (name.take 63) after hsplit).1 (Or.inr ⟨name, hbefore, rfl⟩))
      have hne : some (name.take 63) ≠ some name := by
        intro heq
        have hlen := congrArg List.length (Option.some.inj heq)
        rw [List.length_take] at hlen
        omega
      rw [hsplit, List.idxOf_append_of_notMem hfirst, List.idxOf_append_of_notMem hnot,
        List.idxOf_cons_self, List.idxOf_cons_ne _ hne]
      omega
  · rintro ⟨hmain, honce, hlater⟩ before name after hsplit
    have hname : some name ∈ names := by
      rw [hsplit]
      exact List.mem_append_right _ List.mem_cons_self
    constructor
    · rintro (rfl | ⟨long, hbefore, rfl⟩)
      · exact absurd hname hmain
      · -- A name that is not long is its own cut; a long one before its cut contradicts the order.
        rcases Nat.lt_or_ge long.length 64 with hshort | hlong
        · rwa [List.take_of_length_le (by omega)]
        · have hlongMem : some long ∈ names := by
            rw [hsplit]
            exact List.mem_append_left _ hbefore
          have hlt := hlater long hlong hlongMem hname
          rw [hsplit, List.idxOf_append_of_mem hbefore] at hlt
          by_contra hnot
          rw [List.idxOf_append_of_notMem hnot] at hlt
          have hplace := List.idxOf_lt_length_of_mem hbefore
          omega
    · -- A long name has no second place, so the name is its own cut.
      intro hbefore
      rcases Nat.lt_or_ge name.length 64 with hshort | hlong
      · exact Or.inr ⟨name, hbefore, List.take_of_length_le (by omega)⟩
      · have hcount := honce name hlong
        have hpos := List.count_pos_iff.2 hbefore
        rw [hsplit, List.count_append, List.count_cons_self] at hcount
        omega

/-! ## The table after the loading loop -/

/-- Whatever the names, the table is one of libraries that were each looked up by a name that no
object had. -/
theorem loadFrom_table {kernel : Kernel} {disk : Disk} {main : Object} (hmain : main.name = mainName)
    {fuel i : ℕ} {l l' : LoaderState} (h : loadFrom kernel disk fuel i l = .ok l')
    (ht : ∃ libs, l.objects = main :: libs ∧ Table disk main libs) :
    ∃ libs, l'.objects = main :: libs ∧ Table disk main libs := by
  refine loadFrom_rule (fun l => ∃ libs, l.objects = main :: libs ∧ Table disk main libs) ?_ h ht
  rintro i l l' needed ⟨libs, hl, hlibs⟩ hstep
  obtain ⟨libs', hl', -, hgrows⟩ := loadNeeded_grows hmain hlibs hl hstep
  exact ⟨libs', hl', hgrows.table⟩

/-- What can be reached is the main program and what the scan comes to. -/
theorem mem_lookedUp_iff {disk : Disk} {main : Object} {nodes : List (Option CStr)}
    (hnodes : ∀ node, Needed disk main node → node ∈ nodes) (hfits : nodes.length ≤ MAX_OBJECTS)
    (name : CStr) : some name ∈ lookedUp disk main ↔ Needed disk main (some name) := by
  have horder := mem_order_iff (a := some name) hnodes hfits
  unfold order at horder
  rw [scan_eq_foldl, mem_foldl_add, List.mem_singleton] at horder
  rw [← show _ ↔ Needed disk main (some name) from horder]
  simp [lookedUp]

/-- When the closure fits, the loading loop ends with the main program and one object for each
resolved name needed, if and only if the names keep apart when they are cut. -/
theorem loadAll_closure_iff {kernel : Kernel} {disk : Disk} {memory : Memory}
    {aux : List AuxEntry64} {image : Image} {l : LoaderState} {main : Object}
    (hregister : registerMainObject (.initial memory) aux image = .ok l)
    (hmain : l.objects = [main]) {nodes : List (Option CStr)}
    (hnodes : ∀ node, Needed disk main node → node ∈ nodes) (hfits : nodes.length ≤ MAX_OBJECTS)
    (hload : ∀ name, Needed disk main (some name) →
      ∃ file, library disk name = some file ∧ Loadable kernel file) :
    (∃ l', loadAll kernel disk l = .ok l' ∧ HoldsClosure disk main l'.objects) ↔
      NamesKept disk (lookedUp disk main) := by
  have hname : main.name = mainName := by
    obtain ⟨main', hmain', hname, -⟩ := registerMain_objects hregister
    rw [hmain] at hmain'
    rw [(List.cons.inj hmain').1]
    exact hname
  have hstart : Follows disk main l [none] := ⟨[], hmain, Table.empty disk main, rfl⟩
  have hseen : ∀ node ∈ [none], Needed disk main node := by
    intro node hnode
    rw [List.mem_singleton.1 hnode]
    exact Relation.ReflTransGen.refl
  constructor
  · rintro ⟨l', hrun, hclosure⟩
    obtain ⟨last, hobjects, hlast⟩ := loadFrom_table hname hrun ⟨[], hmain, Table.empty disk main⟩
    rw [hobjects] at hclosure
    -- Every name has an object, which is of the file at the cut path and of the library's.
    have hpath : ∀ name, Needed disk main (some name) →
        disk (libraryPath name) = library disk name := by
      intro name hneeded
      obtain ⟨libs, heq, -, hnames, hfiles⟩ := hclosure
      obtain rfl : last = libs := (List.cons.inj heq).2
      obtain ⟨object, hobject, rfl⟩ := List.mem_map.1 ((hnames name).2 hneeded)
      rw [hlast.file object hobject, hfiles object hobject]
    -- The queue of the real load is then that of the search, name by name.
    have hext : l'.objects <+: main :: last := hobjects ▸ List.prefix_rfl
    have halong := loadFrom_back hname hlast hclosure hstart hrun hext hseen hpath
    obtain ⟨hnot, honce, hlater⟩ := along_agrees_iff.1 halong
    exact ⟨hnot, honce, hlater, fun name hmem =>
      hpath name ((mem_lookedUp_iff hnodes hfits name).1 hmem)⟩
  · rintro ⟨hnot, honce, hlater, hpath⟩
    have hpath' : ∀ name, Needed disk main (some name) →
        disk (libraryPath name) = library disk name := fun name hneeded =>
      hpath name ((mem_lookedUp_iff hnodes hfits name).2 hneeded)
    have halong : Along add Agrees [none] (lookups (needs disk main) MAX_OBJECTS 0 [none]) :=
      along_agrees_iff.2 ⟨hnot, honce, hlater⟩
    obtain ⟨l', hrun, libs, hobjects, ht, hlibs⟩ := loadFrom_follows hname hpath' hload hnodes hfits
      hstart (List.nodup_singleton none) hseen halong
    have hnames : ∀ name, name ∈ libs.map Object.soname ↔ Needed disk main (some name) := by
      intro name
      rw [← mem_nodesOf, hlibs]
      exact mem_order_iff hnodes hfits
    refine ⟨l', hrun, libs, hobjects, ?_, hnames, fun object hobject => ?_⟩
    · have hnodup : (nodesOf libs).Nodup := by
        rw [hlibs]
        exact nodup_order (needs disk main) none MAX_OBJECTS
      have hsome := (List.nodup_cons.1 hnodup).2
      rw [← Function.comp_def, ← List.map_map] at hsome
      exact hsome.of_map
    · rw [← hpath' _ ((hnames _).1 (List.mem_map_of_mem hobject))]
      exact ht.file object hobject

/-! ### Small families -/

/-- A file whose only program headers are those of the table itself and of a dynamic section with
the names given, each in 128 bytes of its string table. -/
def fileNeeding (needed : List CStr) : Image :=
  { size := 4096
    byte := fun _ => 0
    header := ⟨true, true, .dynamic, 0, 64, 56, 2⟩
    programHeader := fun i =>
      if i = 0 then ⟨.phdr, true, false, false, 64, 64, 112, 112⟩
      else ⟨.dynamic, true, false, false, 512, 512, 256, 256⟩
    tables :=
      { dynamic := fun _ => [⟨.strTab, 1024⟩, ⟨.symTab, 2048⟩, ⟨.hash, 3072⟩] ++
          (List.range needed.length).map fun k => ⟨.needed, BitVec.ofNat 64 (128 * k)⟩
        string := fun a => needed.getD ((a - 1024).toNat / 128) []
        symbolCount := fun _ => 1
        symbol := fun _ _ => ⟨0, false, 0, 0, 0⟩
        rela := fun _ _ => ⟨0, .none, 0, 0⟩ } }

/-- Such a file can be loaded anywhere. -/
theorem loadable_fileNeeding (name : CStr) : Loadable grantAll (fileNeeding [name]) := by
  refine ⟨rfl, fun _ _ => ⟨_, rfl⟩, fun object himage hdynamic => ?_⟩
  have haddress : object.dynamic = some (object.base + 512) := hdynamic
  unfold parseDynamic
  rw [haddress]
  dsimp only
  rw [himage]
  exact ⟨_, rfl⟩

/-- The auxiliary vector of a main program at `0x400000`. -/
def auxAt : List AuxEntry64 := [⟨.phdr, 0x400040⟩, ⟨.phnum, 2⟩, ⟨.entry, 0x401000⟩]

/-- `libm.so.6`. -/
def libm : CStr := chars ['l', 'i', 'b', 'm', '.', 's', 'o', '.', '6']
/-- `libc.so.6`. -/
def libc : CStr := chars ['l', 'i', 'b', 'c', '.', 's', 'o', '.', '6']

/-- A program that needs one library, which needs itself alone. -/
theorem needed_of_one {disk : Disk} {main : Object} {name : CStr}
    (hmain : needs disk main none = [some name]) (hself : needs disk main (some name) = [some name])
    {node : Option CStr} (h : Needed disk main node) : node ∈ [none, some name] := by
  induction h with
  | refl => exact List.mem_cons_self
  | tail _ hedge ih =>
    apply List.mem_cons_of_mem
    rcases List.mem_cons.1 ih with rfl | hb
    · rwa [Edge, hmain] at hedge
    · rwa [List.mem_singleton.1 hb, Edge, hself] at hedge

/-- The runtime library alone; it needs the C library, which it is itself. -/
def runtimeDisk : Disk := fun path =>
  if path = libPrefix ++ libInstant then some (fileNeeding [libc]) else none

/-- A program that needs the mathematics library gets the runtime library, once. -/
theorem loadAll_closure_runtime :
    ∃ l main l', registerMainObject (.initial fun _ => 0) auxAt (fileNeeding [libm]) = .ok l ∧
      l.objects = [main] ∧ loadAll grantAll runtimeDisk l = .ok l' ∧
      HoldsClosure runtimeDisk main l'.objects := by
  obtain ⟨l, main, hregister, hmain, hneeds⟩ : ∃ l main,
      registerMainObject (.initial fun _ => 0) auxAt (fileNeeding [libm]) = .ok l ∧
      l.objects = [main] ∧ main.neededNames = [libm] := ⟨_, _, rfl, rfl, rfl⟩
  have hstart : needs runtimeDisk main none = [some libInstant] := by
    unfold needs
    dsimp only
    rw [hneeds]
    decide
  have hlibrary : library runtimeDisk libInstant = some (fileNeeding [libc]) := rfl
  have hruntime : needs runtimeDisk main (some libInstant) = [some libInstant] := by
    unfold needs
    dsimp only
    rw [hlibrary]
    decide
  have hnodes : ∀ node, Needed runtimeDisk main node → node ∈ [none, some libInstant] :=
    fun _ hneeded => needed_of_one hstart hruntime hneeded
  have hlookedUp : lookedUp runtimeDisk main = [some libInstant, some libInstant] := by
    have hadd : [some libInstant].foldl add [none] = [none, some libInstant] := by decide
    have hadd' : [some libInstant].foldl add [none, some libInstant] =
        [none, some libInstant] := by decide
    show lookups _ (13 + 3) 0 [none] = _
    simp only [lookups, List.getElem?_cons_zero, hstart, hadd, List.getElem?_cons_succ, hruntime,
      hadd', List.getElem?_nil]
    rfl
  -- The one name that is looked up is short and is not the program's.
  have hkept : NamesKept runtimeDisk (lookedUp runtimeDisk main) := by
    have hshort : ∀ name, some name ∈ lookedUp runtimeDisk main → name = libInstant := by
      intro name hmem
      rw [hlookedUp] at hmem
      simpa using hmem
    refine ⟨fun hmem => absurd (hshort _ hmem) (by decide), fun name hlong => ?_,
      fun name hlong hmem => ?_, fun name hmem => ?_⟩
    · rw [Nat.le_one_iff_eq_zero_or_eq_one]
      left
      refine List.count_eq_zero_of_not_mem fun hmem => ?_
      rw [hshort name hmem] at hlong
      exact absurd hlong (by decide)
    · rw [hshort name hmem] at hlong
      exact absurd hlong (by decide)
    · rw [hshort name hmem]
      rfl
  obtain ⟨l', hrun, hclosure⟩ := (loadAll_closure_iff hregister hmain hnodes (by decide)
    (fun name hneeded => by
      have hname : name = libInstant := by simpa using hnodes _ hneeded
      rw [hname]
      exact ⟨_, hlibrary, loadable_fileNeeding libc⟩)).2 hkept
  exact ⟨l, main, l', hregister, hmain, hrun, hclosure⟩

/-- A name of 64 bytes. -/
def longName : CStr := List.replicate 64 97

/-- A library of that name alone, which needs itself. -/
def longDisk : Disk := fun path =>
  if path = libPrefix ++ longName then some (fileNeeding [longName]) else none

/-- A library with a name of 64 bytes that needs itself is loaded until the table is full. -/
theorem longName_fillsTable :
    ¬ ∀ (kernel : Kernel) (disk : Disk) (memory : Memory) (aux : List AuxEntry64) (image : Image)
      (l : LoaderState) (main : Object), registerMainObject (.initial memory) aux image = .ok l →
      l.objects = [main] → ∀ nodes : List (Option CStr),
      (∀ node, Needed disk main node → node ∈ nodes) → nodes.length ≤ MAX_OBJECTS →
      (∀ name, Needed disk main (some name) →
        ∃ file, library disk name = some file ∧ Loadable kernel file) →
      ∃ l', loadAll kernel disk l = .ok l' ∧ HoldsClosure disk main l'.objects := by
  intro hclaim
  obtain ⟨l, main, hregister, hmain, hneeds⟩ : ∃ l main,
      registerMainObject (.initial fun _ => 0) auxAt (fileNeeding [longName]) = .ok l ∧
      l.objects = [main] ∧ main.neededNames = [longName] := ⟨_, _, rfl, rfl, rfl⟩
  have hstart : needs longDisk main none = [some longName] := by
    unfold needs
    dsimp only
    rw [hneeds]
    decide
  have hlibrary : library longDisk longName = some (fileNeeding [longName]) := rfl
  have hitself : needs longDisk main (some longName) = [some longName] := by
    unfold needs
    dsimp only
    rw [hlibrary]
    decide
  have hnodes : ∀ node, Needed longDisk main node → node ∈ [none, some longName] :=
    fun _ hneeded => needed_of_one hstart hitself hneeded
  obtain ⟨l', hrun, -⟩ := hclaim grantAll longDisk (fun _ => 0) auxAt (fileNeeding [longName]) l
    main hregister hmain _ hnodes (by decide) fun name hneeded => by
      have hname : name = longName := by simpa using hnodes _ hneeded
      rw [hname]
      exact ⟨_, hlibrary, loadable_fileNeeding longName⟩
  -- The load itself ends with an error.
  have hfull : (match registerMainObject (.initial fun _ => 0) auxAt (fileNeeding [longName]) with
      | .ok l => (loadAll grantAll longDisk l).toOption.isSome
      | .error _ => true) = false := by decide +kernel
  rw [hregister] at hfull
  dsimp only at hfull
  rw [hrun] at hfull
  cases hfull

end IUserApps.Loader
