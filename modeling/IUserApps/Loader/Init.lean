import IUserApps.Loader.LoadOrder
import IUserApps.Loader.Relocate

/-!
# Initialisers

The whole of `ld_main`, and the order in which it calls the initialisers: those of the libraries in
the order of the object table, then those of the main program. The table is in breadth-first order,
so that a library can come before one that it needs; `initOrder_spec` says for which `DT_NEEDED`
graphs none does.

A trace lists the calls, each with the place of its object. A call ends before the next starts. The
initialisers are taken to leave the arrays alone that they are read from.
-/

namespace IUserApps.Loader

open Numberings

/-- A call of an initialiser: the place of its object, and its address. -/
abbrev InitCall := ℕ × U64

/-- The word at an address. -/
def loadWord (memory : Memory) (address : U64) : U64 :=
  (List.range 8).foldl (fun word k =>
    word ||| (memory (address + BitVec.ofNat 64 k)).setWidth 64 <<< (8 * k)) 0

/-- The initialisers of an object: `DT_INIT`, then the pointers of `DT_INIT_ARRAY` that are set. -/
def Object.initialisers (object : Object) (memory : Memory) : List U64 :=
  object.init.toList ++
    ((List.range object.initArrayCount.toNat).map fun k =>
      loadWord memory (object.initArray + BitVec.ofNat 64 (8 * k))).filter fun f => decide (f ≠ 0)

/-- Calls the initialisers of the object at `i`, once. -/
def runInit (memory : Memory) (s : List Object × List InitCall) (i : ℕ) :
    List Object × List InitCall :=
  match s.1[i]? with
  | none => s
  | some object =>
    if object.initDone then s
    else (s.1.set i { object with initDone := true },
      s.2 ++ (object.initialisers memory).map fun f => (i, f))

/-- The objects whose initialisers are called, in turn: the libraries, then the main program. -/
def initOrder (objectCount : ℕ) : List ℕ := List.range' 1 (objectCount - 1) ++ [0]

/-- The calls of all initialisers. -/
def runInits (objects : List Object) (memory : Memory) : List InitCall :=
  ((initOrder objects.length).foldl (runInit memory) (objects, [])).2

/-- Sets the protection of an object's segments. -/
def protectObject (kernel : Kernel) (object : Object) : Except String Unit :=
  object.segments.forM fun segment =>
    if kernel.mprotect segment.address segment.size segment.protection then .ok ()
    else .error "mprotect failed"

/-- What `ld_main` leaves: the table, what its objects need of each other, the calls of their
initialisers, and where the program starts. -/
structure Started where
  objects : List Object
  deps : List (ℕ × ℕ)
  memory : Memory
  trace : List InitCall
  entry : U64

/-- The loader. -/
def ldMain (kernel : Kernel) (disk : Disk) (memory : Memory) (aux : List AuxEntry64)
    (image : Image) : Except String Started := do
  let registered ← registerMainObject (.initial memory) aux image
  let l ← loadAll kernel disk registered
  let memory ← relocateAll l.objects l.memory
  (l.objects.drop 1).forM (protectObject kernel)
  .ok ⟨l.objects, l.deps, memory, runInits l.objects memory,
    (l.objects.head?.map Object.entry).getD 0⟩

/-! ## What the trace should be -/

/-- The calls of the object at `i`. -/
def callsOf (objects : List Object) (memory : Memory) (i : ℕ) : List InitCall :=
  match objects[i]? with
  | none => []
  | some object => (object.initialisers memory).map fun f => (i, f)

/-- An object needs another, directly or transitively. -/
def NeedsLater (deps : List (ℕ × ℕ)) : ℕ → ℕ → Prop :=
  Relation.TransGen fun i j => (i, j) ∈ deps

/-- The initialisers of every object are called once, in their order. -/
def InitsOnce (s : Started) : Prop :=
  ∀ i < s.objects.length, (s.trace.filter fun call => call.1 = i) = callsOf s.objects s.memory i

/-- Nothing but the main program's own initialisers follows one of them. -/
def MainLast (s : Started) : Prop :=
  ∀ before call after, s.trace = before ++ call :: after → call.1 = 0 → ∀ c ∈ after, c.1 = 0

/-- When an initialiser of an object is called, those of every other object that it needs have
ended. -/
def DepsFirst (s : Started) : Prop :=
  ∀ before call after, s.trace = before ++ call :: after →
    ∀ j, j ≠ call.1 → NeedsLater s.deps call.1 j → ∀ c ∈ after, c.1 ≠ j

/-- An object has initialisers, in a table and a memory as they are before any is called. -/
def HasInits (objects : List Object) (memory : Memory) (i : ℕ) : Prop :=
  callsOf objects memory i ≠ []

/-- Of any two libraries with initialisers of which one needs the other, that one comes behind: each
walk of `DT_NEEDED` entries to it from the main program is longer than some walk to the other, or as
long and behind it at the first entry in which they differ. Neither is the main program. -/
def NeededFirst (g : Numbered (Option CStr)) (hasInits : ℕ → Prop) : Prop :=
  ∀ i j, i ≠ 0 → j ≠ i → hasInits i → hasInits j → NeedsLater g.edges i j →
    j ≠ 0 ∧ Precedes g.edges j i

/-! ## The trace -/

/-- The table while initialisers are called: only flags have changed, and only of objects passed. -/
structure InitProgress (objects : List Object) (memory : Memory) (done : List ℕ)
    (s : List Object × List InitCall) : Prop where
  trace : s.2 = done.flatMap (callsOf objects memory)
  rest : ∀ i, i ∉ done → s.1[i]? = objects[i]?

/-- Calling the initialisers of an object for the first time. -/
theorem InitProgress.step {objects : List Object} {memory : Memory} {done : List ℕ}
    {s : List Object × List InitCall} (h : InitProgress objects memory done s)
    (hfresh : ∀ object ∈ objects, object.initDone = false) {i : ℕ} (hi : i ∉ done) :
    InitProgress objects memory (done ++ [i]) (runInit memory s i) := by
  have hsame := h.rest i hi
  unfold runInit
  rw [hsame]
  cases hobject : objects[i]? with
  | none =>
    refine ⟨?_, fun k hk => h.rest k fun hmem => hk (List.mem_append_left _ hmem)⟩
    rw [h.trace, List.flatMap_append, List.flatMap_singleton]
    unfold callsOf
    rw [hobject, List.append_nil]
  | some object =>
    dsimp only
    rw [hfresh object (List.mem_of_getElem? hobject), if_neg Bool.false_ne_true]
    constructor
    · rw [h.trace, List.flatMap_append, List.flatMap_singleton]
      unfold callsOf
      rw [hobject]
    · intro k hk
      rw [List.mem_append, not_or, List.mem_singleton] at hk
      rw [List.getElem?_set_ne (Ne.symm hk.2)]
      exact h.rest k hk.1

/-- No object is initialised twice. -/
theorem nodup_initOrder (n : ℕ) : (initOrder n).Nodup := by
  refine List.nodup_append.2 ⟨List.nodup_range', List.nodup_singleton 0, ?_⟩
  intro a ha b hb
  rw [List.mem_singleton.1 hb]
  have h := List.mem_range'_1.1 ha
  omega

/-- The trace is the calls of the objects, in their turn. -/
theorem runInits_eq {objects : List Object} (memory : Memory)
    (hfresh : ∀ object ∈ objects, object.initDone = false) :
    runInits objects memory = (initOrder objects.length).flatMap (callsOf objects memory) := by
  unfold runInits
  suffices key : ∀ (rest done : List ℕ) s, (done ++ rest).Nodup →
      InitProgress objects memory done s →
      InitProgress objects memory (done ++ rest) (rest.foldl (runInit memory) s) from
    (key _ [] _ (nodup_initOrder _) ⟨rfl, fun _ _ => rfl⟩).trace
  intro rest
  induction rest with
  | nil =>
    intro done s _ h
    rw [List.append_nil]
    exact h
  | cons i rest ih =>
    intro done s hnodup h
    have hi : i ∉ done := fun hmem =>
      (List.nodup_append.1 hnodup).2.2 i hmem i List.mem_cons_self rfl
    have hstep := h.step hfresh hi
    have hsplit : done ++ i :: rest = done ++ [i] ++ rest := by simp
    rw [hsplit] at hnodup ⊢
    exact ih _ _ hnodup hstep

/-- A call in the trace of an object is one of its own. -/
theorem mem_callsOf {objects : List Object} {memory : Memory} {i : ℕ} {call : InitCall}
    (h : call ∈ callsOf objects memory i) : call.1 = i := by
  unfold callsOf at h
  split at h
  · exact absurd h List.not_mem_nil
  · obtain ⟨f, -, rfl⟩ := List.mem_map.1 h
    rfl

/-- One object's turn comes before another's. -/
def Before (i j : ℕ) : Prop := i ≠ 0 ∧ (j = 0 ∨ i < j)

/-- The libraries come in the order of their places, and the program last. -/
theorem pairwise_initOrder (n : ℕ) : (initOrder n).Pairwise Before := by
  have hsorted : (List.range' 1 (n - 1)).Pairwise (· < ·) := List.pairwise_lt_range'
  refine List.pairwise_append.2 ⟨?_, List.pairwise_singleton _ _, ?_⟩
  · refine hsorted.imp_of_mem ?_
    intro i j hi _ hlt
    have h := List.mem_range'_1.1 hi
    exact ⟨by omega, Or.inr hlt⟩
  · intro i hi j hj
    have h := List.mem_range'_1.1 hi
    exact ⟨by omega, Or.inl (List.mem_singleton.1 hj)⟩

/-- The calls of an object with an earlier turn come first. -/
theorem pairwise_trace (objects : List Object) (memory : Memory) (n : ℕ) :
    ((initOrder n).flatMap (callsOf objects memory)).Pairwise fun c d =>
      c.1 = d.1 ∨ Before c.1 d.1 := by
  rw [List.pairwise_flatMap]
  constructor
  · intro i _
    refine List.pairwise_of_forall_mem_list fun c hc d hd => Or.inl ?_
    rw [mem_callsOf hc, mem_callsOf hd]
  · refine (pairwise_initOrder n).imp fun hbefore c hc d hd => Or.inr ?_
    rwa [mem_callsOf hc, mem_callsOf hd]

/-- The calls of one object among those of others. -/
theorem filter_callsOf_of_notMem {objects : List Object} {memory : Memory} {i : ℕ} {order : List ℕ}
    (h : i ∉ order) :
    ((order.flatMap (callsOf objects memory)).filter fun call => call.1 = i) = [] := by
  rw [List.filter_eq_nil_iff]
  intro call hcall
  obtain ⟨k, hk, hmem⟩ := List.mem_flatMap.1 hcall
  rw [mem_callsOf hmem, decide_eq_true_iff]
  rintro rfl
  exact h hk

/-- In an order that comes to an object once its calls are those of its turn. -/
theorem filter_callsOf {objects : List Object} {memory : Memory} {i : ℕ} {order : List ℕ}
    (hnodup : order.Nodup) (h : i ∈ order) :
    ((order.flatMap (callsOf objects memory)).filter fun call => call.1 = i) =
      callsOf objects memory i := by
  obtain ⟨first, last, rfl⟩ := List.append_of_mem h
  rw [List.nodup_append, List.nodup_cons] at hnodup
  have hfirst : i ∉ first := fun hmem => hnodup.2.2 i hmem i List.mem_cons_self rfl
  rw [List.flatMap_append, List.flatMap_cons, List.filter_append, List.filter_append,
    filter_callsOf_of_notMem hfirst, filter_callsOf_of_notMem hnodup.2.1.1, List.nil_append,
    List.append_nil, List.filter_eq_self]
  intro call hcall
  rw [mem_callsOf hcall, decide_eq_true_iff]

/-- The table that `ld_main` leaves is that of the loading loop, and the calls are those of its
objects. -/
theorem ldMain_ok {kernel : Kernel} {disk : Disk} {memory : Memory} {aux : List AuxEntry64}
    {image : Image} {s : Started} (h : ldMain kernel disk memory aux image = .ok s) :
    ∃ registered l, registerMainObject (.initial memory) aux image = .ok registered ∧
      loadAll kernel disk registered = .ok l ∧ relocateAll l.objects l.memory = .ok s.memory ∧
      s.objects = l.objects ∧ s.deps = l.deps ∧ s.trace = runInits s.objects s.memory := by
  unfold ldMain at h
  dsimp only [bind, Except.bind] at h
  split at h
  · cases h
  next registered hregister =>
    split at h
    · cases h
    next l hload =>
      split at h
      · cases h
      next relocated hrelocate =>
        split at h
        · cases h
        · cases h
          exact ⟨registered, l, hregister, hload, hrelocate, rfl, rfl, rfl⟩

/-- No object has run its initialisers when they start. -/
theorem loadAll_fresh {kernel : Kernel} {disk : Disk} {memory : Memory} {aux : List AuxEntry64}
    {image : Image} {registered l : LoaderState}
    (hregister : registerMainObject (.initial memory) aux image = .ok registered)
    (hload : loadAll kernel disk registered = .ok l) : ∀ o ∈ l.objects, o.initDone = false := by
  obtain ⟨main, hmain, -, hdone, -⟩ := registerMain_objects hregister
  refine loadFrom_rule (fun l => ∀ o ∈ l.objects, o.initDone = false) ?_ hload ?_
  · intro i l l' needed hl hstep
    rcases loadNeeded_ok hstep with ⟨j, -, rfl⟩ | ⟨-, image, l1, actions, -, hobject, rfl⟩
    · exact hl
    · obtain ⟨object, hobjects, -, -, -, -, hfresh, -⟩ := loadObject_objects hobject
      show ∀ o ∈ l1.objects, o.initDone = false
      rw [hobjects]
      exact List.forall_mem_append.2 ⟨hl, List.forall_mem_singleton.2 hfresh⟩
  · rw [hmain]
    exact List.forall_mem_singleton.2 hdone

/-- What `ld_main` has called when it ends. -/
theorem ldMain_trace {kernel : Kernel} {disk : Disk} {memory : Memory} {aux : List AuxEntry64}
    {image : Image} {s : Started} (h : ldMain kernel disk memory aux image = .ok s) :
    s.trace = (initOrder s.objects.length).flatMap (callsOf s.objects s.memory) := by
  obtain ⟨registered, l, hregister, hload, -, hobjects, -, htrace⟩ := ldMain_ok h
  rw [htrace]
  refine runInits_eq _ ?_
  rw [hobjects]
  exact loadAll_fresh hregister hload

/-- The table holds the `DT_NEEDED` graph of the program. -/
theorem ldMain_numbers {kernel : Kernel} {disk : Disk} {memory : Memory} {aux : List AuxEntry64}
    {image : Image} {registered : LoaderState} {main : Object} {s : Started}
    (hregister : registerMainObject (.initial memory) aux image = .ok registered)
    (hmain : registered.objects = [main]) (h : ldMain kernel disk memory aux image = .ok s) :
    s.objects.length = (neededGraph disk main).nodes.length ∧
      s.deps = (neededGraph disk main).edges := by
  obtain ⟨registered', l, hregister', hload, -, hobjects, hdeps, -⟩ := ldMain_ok h
  obtain rfl : registered = registered' := Except.ok.inj (hregister.symm.trans hregister')
  rw [hobjects, hdeps]
  exact loadAll_numbers hregister hmain hload

/-- An object with calls is in the table. -/
theorem HasInits.lt {objects : List Object} {memory : Memory} {i : ℕ}
    (h : HasInits objects memory i) : i < objects.length := by
  unfold HasInits callsOf at h
  by_contra hge
  rw [List.getElem?_eq_none (Nat.not_lt.1 hge)] at h
  exact h rfl

/-- It has a turn. -/
theorem mem_initOrder {s : Started} {i : ℕ} (h : HasInits s.objects s.memory i) :
    i ∈ initOrder s.objects.length := by
  have hlt := h.lt
  rcases Nat.eq_zero_or_pos i with rfl | hpos
  · exact List.mem_append_right _ List.mem_cons_self
  · exact List.mem_append_left _ (List.mem_range'_1.2 ⟨hpos, by omega⟩)

/-- A call of an object with an earlier turn is followed by every call of one with a later turn. -/
theorem trace_split {s : Started} {i j : ℕ} (hij : Before i j) (hi : HasInits s.objects s.memory i)
    (hj : HasInits s.objects s.memory j) :
    ∃ before call after, (initOrder s.objects.length).flatMap (callsOf s.objects s.memory) =
      before ++ call :: after ∧ call.1 = i ∧ ∃ c ∈ after, c.1 = j := by
  obtain ⟨first, last, horder⟩ := List.append_of_mem (mem_initOrder hi)
  -- The later turn is in the last part: in the first it would be the earlier one.
  have hlast : j ∈ last := by
    have hmem := mem_initOrder hj
    have hpairwise := pairwise_initOrder s.objects.length
    rw [horder] at hmem hpairwise
    rw [List.pairwise_append] at hpairwise
    rcases List.mem_append.1 hmem with hmem | hmem
    · have hji := hpairwise.2.2 j hmem i List.mem_cons_self
      unfold Before at hij hji
      omega
    · rcases List.mem_cons.1 hmem with rfl | hmem
      · unfold Before at hij
        omega
      · exact hmem
  obtain ⟨call, calls, hcalls⟩ := List.exists_cons_of_ne_nil hi
  obtain ⟨c, rest, hc⟩ := List.exists_cons_of_ne_nil hj
  refine ⟨first.flatMap (callsOf s.objects s.memory), call,
    calls ++ last.flatMap (callsOf s.objects s.memory), ?_, ?_, c, ?_, ?_⟩
  · rw [horder, List.flatMap_append, List.flatMap_cons, hcalls, List.cons_append]
  · exact mem_callsOf (by rw [hcalls]; exact List.mem_cons_self)
  · refine List.mem_append_right _ (List.mem_flatMap.2 ⟨j, hlast, ?_⟩)
    rw [hc]
    exact List.mem_cons_self
  · exact mem_callsOf (by rw [hc]; exact List.mem_cons_self)

/-- A call that has been made is of an object that has initialisers. -/
theorem hasInits_of_mem {s : Started} {c : InitCall}
    (h : c ∈ (initOrder s.objects.length).flatMap (callsOf s.objects s.memory)) :
    HasInits s.objects s.memory c.1 := by
  obtain ⟨i, -, hc⟩ := List.mem_flatMap.1 h
  rw [mem_callsOf hc]
  exact List.ne_nil_of_mem hc

/-- The initialisers of the libraries come in the order of their places. -/
theorem depsFirst_iff {s : Started}
    (htrace : s.trace = (initOrder s.objects.length).flatMap (callsOf s.objects s.memory)) :
    DepsFirst s ↔ ∀ i j, i ≠ 0 → j ≠ i → HasInits s.objects s.memory i →
      HasInits s.objects s.memory j → NeedsLater s.deps i j → j ≠ 0 ∧ j < i := by
  constructor
  · -- Two objects in the wrong order would give a call after one that it should precede.
    intro hfirst i j hi hne hinits hinits' hneeds
    by_contra hnot
    have hbefore : Before i j := ⟨hi, by omega⟩
    obtain ⟨before, call, after, hsplit, rfl, c, hc, rfl⟩ := trace_split hbefore hinits hinits'
    exact hfirst before call after (htrace.trans hsplit) c.1 hne hneeds c hc rfl
  · -- A call before another is of the same object, or of one whose turn comes before.
    intro hordered before call after hsplit j hne hneeds c hc hcj
    have hpairwise := pairwise_trace s.objects s.memory s.objects.length
    rw [← htrace, hsplit, List.pairwise_append, List.pairwise_cons] at hpairwise
    have hcall : HasInits s.objects s.memory call.1 :=
      hasInits_of_mem (by rw [← htrace, hsplit]; simp)
    have hcinits : HasInits s.objects s.memory c.1 :=
      hasInits_of_mem (by rw [← htrace, hsplit]; simp [hc])
    rw [hcj] at hcinits
    rcases hpairwise.2.1.1 c hc with heq | hbefore
    · exact hne (hcj ▸ heq.symm)
    · rw [hcj] at hbefore
      have horder := hordered call.1 j hbefore.1 hne hcall hcinits hneeds
      unfold Before at hbefore
      omega

/-- Every object's initialisers are called once and the main program's last, and those of what an
object needs, which is what its `DT_NEEDED` entries name, come first if and only if the `DT_NEEDED`
graph has needed libraries first. -/
theorem initOrder_spec {kernel : Kernel} {disk : Disk} {memory relocated : Memory}
    {aux : List AuxEntry64} {image : Image} {registered l : LoaderState} {main : Object}
    {s : Started} (hregister : registerMainObject (.initial memory) aux image = .ok registered)
    (hmain : registered.objects = [main]) (hload : loadAll kernel disk registered = .ok l)
    (hrelocate : relocateAll l.objects l.memory = .ok relocated)
    (h : ldMain kernel disk memory aux image = .ok s) :
    s.deps = (neededGraph disk main).edges ∧ InitsOnce s ∧ MainLast s ∧
      (DepsFirst s ↔ NeededFirst (neededGraph disk main) (HasInits l.objects relocated)) := by
  obtain ⟨registered', l', hregister', hload', hrelocate', hobjects, -, -⟩ := ldMain_ok h
  obtain rfl : registered = registered' := Except.ok.inj (hregister.symm.trans hregister')
  obtain rfl : l = l' := Except.ok.inj (hload.symm.trans hload')
  obtain rfl : relocated = s.memory := Except.ok.inj (hrelocate.symm.trans hrelocate')
  have htrace := ldMain_trace h
  have hpairwise := pairwise_trace s.objects s.memory s.objects.length
  obtain ⟨hlength, hdeps⟩ := ldMain_numbers hregister hmain h
  refine ⟨hdeps, ?_, ?_, ?_⟩
  · -- Every place of the table comes once in the order.
    intro i hi
    have hmem : i ∈ initOrder s.objects.length := by
      unfold initOrder
      rw [List.mem_append, List.mem_range'_1, List.mem_singleton]
      omega
    rw [htrace]
    exact filter_callsOf (nodup_initOrder _) hmem
  · intro before call after hsplit hcall c hc
    rw [← htrace, hsplit, List.pairwise_append, List.pairwise_cons] at hpairwise
    rcases hpairwise.2.1.1 c hc with heq | hbefore
    · rw [← heq, hcall]
    · exact absurd hcall hbefore.1
  · -- The places are numbered breadth first.
    rw [depsFirst_iff htrace, hdeps, ← hobjects]
    unfold NeededFirst
    refine forall_congr' fun i => forall_congr' fun j => imp_congr_right fun _ =>
      imp_congr_right fun _ => imp_congr_right fun hinits => imp_congr_right fun _ =>
      imp_congr_right fun _ => and_congr_right fun _ => ?_
    exact (precedes_iff _ _ (hlength ▸ hinits.lt)).symm

/-! ### A chain of libraries -/

/-- A file with the names given and an initialiser. -/
def fileStarting (needed : List CStr) : Image :=
  let file := fileNeeding needed
  { file with tables :=
    { file.tables with dynamic := fun a => file.tables.dynamic a ++ [⟨.init, 0x800⟩] } }

/-- `liba`. -/
def libA : CStr := chars ['l', 'i', 'b', 'a']
/-- `libb`. -/
def libB : CStr := chars ['l', 'i', 'b', 'b']

/-- The first library needs the second. -/
def chainDisk : Disk := fun path =>
  if path = libPrefix ++ libA then some (fileStarting [libB])
  else if path = libPrefix ++ libB then some (fileStarting [])
  else none

/-- What one starts with a kernel that grants everything. -/
def start (needed : List CStr) : Except String Started :=
  ldMain grantAll chainDisk (fun _ => 0) auxAt (fileStarting needed)

/-- A program that needs the second library alone: its initialisers come first. -/
theorem initOrder_oneLibrary :
    ∃ s, start [libB] = .ok s ∧ InitsOnce s ∧ MainLast s ∧ DepsFirst s := by
  obtain ⟨s, hs⟩ : ∃ s, start [libB] = .ok s := ⟨_, rfl⟩
  obtain ⟨registered, main, hregister, hmain, hedges⟩ : ∃ registered main,
      registerMainObject (.initial fun _ => 0) auxAt (fileStarting [libB]) = .ok registered ∧
      registered.objects = [main] ∧ (neededGraph chainDisk main).edges = [(0, 1)] :=
    ⟨_, _, rfl, rfl, by decide⟩
  obtain ⟨registered', l, hregister', hload, hrelocate, -⟩ := ldMain_ok hs
  obtain rfl : registered = registered' := Except.ok.inj (hregister.symm.trans hregister')
  obtain ⟨-, honce, hlast, hiff⟩ := initOrder_spec hregister hmain hload hrelocate hs
  refine ⟨s, hs, honce, hlast, hiff.2 fun i j hi _ _ _ hneeds => ?_⟩
  obtain ⟨k, hedge, -⟩ := Relation.TransGen.head'_iff.1 hneeds
  rw [hedges, List.mem_singleton] at hedge
  exact absurd (Prod.mk.inj hedge).1 hi

/-- A program that needs the first library, which needs the second: the first one's initialiser is
called before the second's. -/
theorem chain_startsEarly :
    ¬ ∀ (kernel : Kernel) (disk : Disk) (memory : Memory) (aux : List AuxEntry64) (image : Image)
      (s : Started), ldMain kernel disk memory aux image = .ok s →
      (∀ i, ¬ NeedsLater s.deps i i) → InitsOnce s ∧ MainLast s ∧ DepsFirst s := by
  intro hclaim
  obtain ⟨s, hs, hdeps, htrace⟩ : ∃ s, start [libA] = .ok s ∧ s.deps = [(0, 1), (1, 2)] ∧
      s.trace = [(1, LIBRARY_BASE + 0x800), (2, LIBRARY_BASE + LIBRARY_STRIDE + 0x800),
        (0, 0x400800)] := ⟨_, rfl, rfl, by decide⟩
  have hacyclic : ∀ i, ¬ NeedsLater s.deps i i := by
    have hless : ∀ i j, NeedsLater s.deps i j → i < j := by
      intro i j h
      induction h with
      | single hedge =>
        rw [hdeps] at hedge
        simp only [List.mem_cons, Prod.mk.injEq, List.not_mem_nil, or_false] at hedge
        omega
      | tail _ hedge ih =>
        rw [hdeps] at hedge
        simp only [List.mem_cons, Prod.mk.injEq, List.not_mem_nil, or_false] at hedge
        omega
    exact fun i h => absurd (hless i i h) (Nat.lt_irrefl i)
  obtain ⟨-, -, hfirst⟩ := hclaim _ _ _ _ _ s hs hacyclic
  have hneeds : NeedsLater s.deps 1 2 := Relation.TransGen.single (by rw [hdeps]; decide)
  exact hfirst [] _ _ htrace 2 (by decide) hneeds _ List.mem_cons_self rfl

end IUserApps.Loader
