import IUserApps.Loader.Closure
import IUserApps.Numberings

/-!
# The load order

The objects get their places in the table breadth first: those that the main program's `DT_NEEDED`
entries name, then those that theirs name, and so on (`neededGraph`). This holds for any names.
Where names are cut and a library is taken for another, or loaded again, the graph has the object
that the loader takes.
-/

namespace IUserApps.Loader

open Loops Numberings

/-- The name under which a node is found: of a library's at most 63 bytes. -/
def cutName : Option CStr → CStr
  | none => mainName
  | some name => name.take 63

/-- A node in the table is taken for the one that is looked up. -/
def takenFor (node needed : Option CStr) : Bool := some (cutName node) = needed

/-- What the `DT_NEEDED` entries of a node name, in their order; the file of a library is the one
that is opened. -/
def neededNodes (disk : Disk) (main : Object) : Option CStr → List (Option CStr)
  | none => main.neededNames.map nodeOf
  | some name =>
    match disk (libraryPath name) with
    | none => []
    | some image => image.neededNames.map nodeOf

/-- The `DT_NEEDED` graph of a program, its nodes in breadth-first order. -/
def neededGraph (disk : Disk) (main : Object) : Numbered (Option CStr) :=
  numbering takenFor (neededNodes disk main) none MAX_OBJECTS

/-- The table holds the nodes of a graph in their places, and the objects that were found for the
names are the graph's edges. -/
def Numbers (disk : Disk) (main : Object) (l : LoaderState) (g : Numbered (Option CStr)) : Prop :=
  ∃ libs, l.objects = main :: libs ∧ Table disk main libs ∧ g = ⟨nodesOf libs, l.deps⟩

variable {kernel : Kernel} {disk : Disk} {main : Object}

/-- The libraries are searched by their cut names. -/
theorem findLibrary_nodes {libs : List Object}
    (hnames : ∀ object ∈ libs, object.name = object.soname.take 63) (name : CStr) :
    libs.findIdx? (fun object => cstrEqual object.name name) =
      (libs.map fun object => some object.soname).findIdx? (takenFor · (some name)) := by
  induction libs with
  | nil => rfl
  | cons object libs ih =>
    have hsame : cstrEqual object.name name = takenFor (some object.soname) (some name) := by
      unfold cstrEqual takenFor cutName
      rw [hnames object List.mem_cons_self]
      simp
    rw [List.map_cons, List.findIdx?_cons, List.findIdx?_cons, hsame,
      ih fun o ho => hnames o (List.mem_cons_of_mem _ ho)]

/-- A name is looked up in the table as its node is in the graph. -/
theorem findObject_nodes {libs : List Object} (hmain : main.name = mainName)
    (ht : Table disk main libs) (name : CStr) :
    findObject (main :: libs) name = (nodesOf libs).findIdx? (takenFor · (some name)) := by
  have hsame : cstrEqual main.name name = takenFor none (some name) := by
    unfold cstrEqual takenFor cutName
    rw [hmain]
    simp
  unfold findObject nodesOf
  rw [List.findIdx?_cons, List.findIdx?_cons, hsame, findLibrary_nodes ht.name]

/-- One name that is looked up is one edge of the graph. -/
theorem loadNeeded_links {i : ℕ} {l l' : LoaderState} {g : Numbered (Option CStr)} {needed : CStr}
    (hmain : main.name = mainName) (h : Numbers disk main l g)
    (hstep : loadNeeded kernel disk i l needed = .ok l') :
    Numbers disk main l' (link takenFor i g (nodeOf needed)) := by
  obtain ⟨libs, hl, ht, rfl⟩ := h
  obtain ⟨libs', hl', -, hgrows⟩ := loadNeeded_grows hmain ht hl hstep
  refine ⟨libs', hl', hgrows.table, ?_⟩
  have hfind := findObject_nodes hmain ht (resolveSoname needed)
  rw [← hl] at hfind
  unfold link nodeOf
  dsimp only
  rw [← hfind]
  rcases loadNeeded_ok hstep with ⟨j, hj, rfl⟩ | ⟨hnone, image, l1, actions, -, hload, rfl⟩
  · obtain rfl : libs = libs' := (List.cons.inj (hl.symm.trans hl')).2
    rw [hj]
  · obtain ⟨object, hobjects, -, hsoname, -, -, -, hdeps, -⟩ := loadObject_objects hload
    have hlibs : libs' = libs ++ [object] := by
      have hboth := hl'.symm.trans (hobjects.trans (congrArg (· ++ [object]) hl))
      exact (List.cons.inj hboth).2
    have hlength : l.objects.length = (nodesOf libs).length := by
      rw [hl]
      simp [nodesOf]
    rw [hnone]
    dsimp only
    rw [hdeps, hlength, hlibs]
    unfold nodesOf
    rw [List.map_append, List.map_singleton, hsoname, List.cons_append]

/-- The names that one object needs are its edges. -/
theorem names_link {i : ℕ} {names : List CStr} {l l' : LoaderState} {g : Numbered (Option CStr)}
    (hmain : main.name = mainName) (h : Numbers disk main l g)
    (hrun : names.foldlM (loadNeeded kernel disk i) l = .ok l') :
    Numbers disk main l' ((names.map nodeOf).foldl (link takenFor i) g) := by
  induction names generalizing l g with
  | nil =>
    cases hrun
    exact h
  | cons needed names ih =>
    obtain ⟨l1, hstep, hrest⟩ := foldlM_cons_ok.1 hrun
    exact ih (loadNeeded_links hmain h hstep) hrest

/-- The object at a place needs what its node does. -/
theorem Numbers.needs {l : LoaderState} {g : Numbered (Option CStr)} (h : Numbers disk main l g)
    (i : ℕ) : (l.objects[i]? = none ∧ g.nodes[i]? = none) ∨
      ∃ object node, l.objects[i]? = some object ∧ g.nodes[i]? = some node ∧
        object.neededNames.map nodeOf = neededNodes disk main node := by
  obtain ⟨libs, hl, ht, rfl⟩ := h
  rw [hl]
  unfold nodesOf
  cases i with
  | zero => exact .inr ⟨main, none, rfl, rfl, rfl⟩
  | succ i =>
    dsimp only
    rw [List.getElem?_cons_succ, List.getElem?_cons_succ, List.getElem?_map]
    cases hobject : libs[i]? with
    | none => exact .inl ⟨rfl, rfl⟩
    | some object =>
      refine .inr ⟨object, some object.soname, rfl, rfl, ?_⟩
      have hmem : object ∈ libs := List.mem_of_getElem? hobject
      unfold neededNodes
      dsimp only
      rw [ht.file object hmem, ht.neededNames object hmem]

/-- The loop over the table numbers the graph. -/
theorem loadFrom_numbers {fuel i : ℕ} {l l' : LoaderState} {g : Numbered (Option CStr)}
    (hmain : main.name = mainName) (h : Numbers disk main l g)
    (hrun : loadFrom kernel disk fuel i l = .ok l') :
    Numbers disk main l' (number takenFor (neededNodes disk main) fuel i g) := by
  induction fuel generalizing i l g with
  | zero =>
    cases hrun
    exact h
  | succ fuel ih =>
    unfold loadFrom at hrun
    unfold number
    rcases h.needs i with ⟨hobject, hnode⟩ | ⟨object, node, hobject, hnode, hneeds⟩
    · rw [hobject] at hrun
      rw [hnode]
      cases hrun
      exact h
    · rw [hobject] at hrun
      rw [hnode]
      dsimp only [bind, Except.bind] at hrun ⊢
      rw [← hneeds]
      split at hrun
      · cases hrun
      next l1 hl1 => exact ih (names_link hmain h hl1) hrun

/-- What the loading loop leaves is the graph. -/
theorem loadAll_numbers {memory : Memory} {aux : List AuxEntry64} {image : Image}
    {l l' : LoaderState} (hregister : registerMainObject (.initial memory) aux image = .ok l)
    (hobjects : l.objects = [main]) (hrun : loadAll kernel disk l = .ok l') :
    l'.objects.length = (neededGraph disk main).nodes.length ∧
      l'.deps = (neededGraph disk main).edges := by
  obtain ⟨main', hmain', hname, -, hdeps⟩ := registerMain_objects hregister
  obtain rfl : main' = main := (List.cons.inj (hmain'.symm.trans hobjects)).1
  have hstart : Numbers disk main' l ⟨[none], []⟩ :=
    ⟨[], hobjects, .empty disk main', by rw [hdeps]; rfl⟩
  obtain ⟨libs, hl, -, hg⟩ := loadFrom_numbers hname hstart hrun
  unfold neededGraph numbering
  rw [hg, hl]
  exact ⟨by simp [nodesOf], rfl⟩

end IUserApps.Loader
