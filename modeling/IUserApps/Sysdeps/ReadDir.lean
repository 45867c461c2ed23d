import IUserApps.Sysdeps.AtPaths
import IUserApps.Sysdeps.Ownership

/-!
# Reading directories over a run

`ReadEntries` on an fd reads a snapshot that is found by the number of the fd, and taken when there is
none. What an fd refers to changes when it is opened, duplicated onto or closed, and of these only
`Close` releases the snapshot. `entriesExact_of_provided` is about whole runs: as long as no `Dup2`
goes onto an fd that has been read, no `Close` to an fd that is not open, and no directory has more
entries than a snapshot has room for, the reads of an fd yield the entries of the directory that it
refers to, each once, and every snapshot in use is one of the directory that its fd refers to.

`DirWorld` has beside the process what the kernel knows: the path that an open handle refers to and
the entries of each directory. `Reading` keeps what the reads of an fd have yielded since it was last
bound.
-/

namespace IUserApps.Sysdeps

open Interact Runs

/-! ## The world -/

/-- What the reads of an fd have come to since it was last bound. -/
inductive Reading
  | unread
  | yielded (bytes : List Byte)
  /-- A read has reported the end. -/
  | ended
deriving DecidableEq, Repr

/-- After one more read. -/
def Reading.next (out : List Byte) : Reading → Reading
  | .unread => if out = [] then .ended else .yielded out
  | .yielded bytes => if out = [] then .ended else .yielded (bytes ++ out)
  | .ended => .ended

/-- A read makes an fd a read one. -/
theorem Reading.next_ne_unread (reading : Reading) (out : List Byte) :
    reading.next out ≠ .unread := by
  unfold Reading.next
  cases reading with
  | ended => exact Reading.noConfusion
  | _ =>
    dsimp only
    split <;> exact Reading.noConfusion

/-- What is yielded after a read is what was before and what it adds. -/
theorem Reading.next_eq_yielded {reading : Reading} {out bytes : List Byte}
    (h : reading.next out = .yielded bytes) : ∃ before,
      ((reading = .unread ∧ before = []) ∨ reading = .yielded before) ∧ bytes = before ++ out := by
  unfold Reading.next at h
  cases reading with
  | unread =>
    dsimp only at h
    split at h
    · cases h
    · cases h
      exact ⟨[], Or.inl ⟨rfl, rfl⟩, rfl⟩
  | yielded before =>
    dsimp only at h
    split at h
    · cases h
    · cases h
      exact ⟨before, Or.inr rfl, rfl⟩
  | ended => cases h

/-- The path that an open handle refers to. -/
abbrev Refs := ℤ → Option (List Byte)

/-- The paths after a call, where an `open` opens the given one. -/
def Refs.after (refs : Refs) (opened : Option (List Byte)) (c : KCall) (a : Answer) : Refs :=
  let handle := c.handles.headD 0
  if a.ok = false then refs
  else if c.number = .open then Function.update refs a.ret opened
  else if c.number = .dup ∨ c.number = .dup2 then Function.update refs a.ret (refs handle)
  else if c.number = .close then Function.update refs handle none
  else refs

/-- What the handles refer to after a trace. -/
def Refs.run (refs : Refs) (opened : Option (List Byte)) (trace : List (KCall × Answer)) : Refs :=
  trace.foldl (fun refs step => refs.after opened step.1 step.2) refs

/-- A process, what its handles refer to, the directories, and how far each fd has read. -/
structure DirWorld where
  process : Process
  refs : Refs
  contents : List Byte → List Dirent
  reading : ℕ → Reading

/-- What happens in it. -/
inductive DirEvent
  /-- A call with the kernel's answers, and the path of the file that it opens, if it does. -/
  | call (i : Invocation) (answers : ℕ → Answer) (opened : Option (List Byte))
  | readEntries (fd maxSize : ℕ) (answers : ℕ → Answer)
  /-- Something else changes a directory. -/
  | change (path : List Byte) (entries : List Dirent)

/-- A process at its start, in a world of its own. -/
def DirWorld.start (refs : Refs) (contents : List Byte → List Dirent) : DirWorld :=
  ⟨initialProcess, refs, contents, fun _ => .unread⟩

/-- The fds that a call binds anew are unread, and so is one that is closed. -/
def rebound (reading : ℕ → Reading) (i : Invocation) (r : Except Errno (List ℕ)) : ℕ → Reading :=
  match i, r with
  | _, .error _ => reading
  | .close fd, .ok _ => fun f => if (f : ℤ) = fd then .unread else reading f
  | _, .ok fds => fun f => if f ∈ fds then .unread else reading f

namespace DirWorld

variable (w : DirWorld)

/-- The state and the result of a read, and its kernel calls. -/
def read (fd maxSize : ℕ) (answers : ℕ → Answer) :
    (Except Errno (List Byte) × Libc) × List (KCall × Answer) :=
  (sysReadEntries fd maxSize).exec w.process.libc answers

/-- The fds after a read with a result. -/
def readingAfter (fd : ℕ) (r : Except Errno (List Byte)) : ℕ → Reading :=
  match r with
  | .error _ => w.reading
  | .ok out => Function.update w.reading fd ((w.reading fd).next out)

/-- The world after an event. -/
def step : DirEvent → DirWorld
  | .call i answers opened =>
    { w with
      process := w.process.step ⟨i, answers⟩
      refs := w.refs.run opened (w.process.trace ⟨i, answers⟩)
      reading := rebound w.reading i (w.process.result ⟨i, answers⟩) }
  | .readEntries fd maxSize answers =>
    { w with
      process := { w.process with
        libc := (w.read fd maxSize answers).1.2
        live := w.process.live.run (w.read fd maxSize answers).2 }
      reading := w.readingAfter fd (w.read fd maxSize answers).1.1 }
  | .change path entries => { w with contents := Function.update w.contents path entries }

/-- What an open fd refers to. -/
def refersTo (fd : ℤ) : Option (List Byte) := w.refs (handleForFd w.process.libc.fdTable fd)

end DirWorld

/-! ## What the kernel answers -/

/-- An answer of the readdir call fills in the entries of the directory, at most as many as there is
room for, and all of them if there is. -/
def Lists (entries : List Dirent) (a : Answer) : Prop :=
  ∃ n : ℕ, a.ret = n ∧ n ≤ kMaxDirEntries ∧
    (entries.length ≤ kMaxDirEntries → n = entries.length) ∧
    ∀ i < n, entries[i]? = some (direntAt a.block i)

/-- The readdir calls of a trace that succeed list the directory. -/
def HonestReaddir (contents : List Byte → List Dirent) (trace : List (KCall × Answer)) : Prop :=
  ∀ step ∈ trace, step.1.number = .readdir → step.2.ok = true → ∀ path, step.1.data = [path] →
    Lists (contents path) step.2

/-! ## What is claimed of a step -/

/-- The calls of the runs: `Open`, `Openat`, `Dup`, `Dup2` and `Close`. -/
def Invocation.IsDirCall : Invocation → Prop
  | .open _ _ _ | .openat _ _ _ _ | .dup _ | .dup2 _ _ | .close _ => True
  | _ => False

/-- No call fails, the kernel's answers are allowed and honest, an fd that is read is open and the
buffer has room for a record, and no directory changes while it is being read. -/
def DirDomain (w : DirWorld) : DirEvent → Prop
  | .call i answers _ =>
    i.IsDirCall ∧ LegalEvent w.process ⟨i, answers⟩ ∧
      Honest w.refs (w.process.trace ⟨i, answers⟩) ∧
      ∃ fds, w.process.result ⟨i, answers⟩ = .ok fds
  | .readEntries fd maxSize answers =>
    fd ∈ w.process.opened ∧ 280 ≤ maxSize ∧ Honest w.refs (w.read fd maxSize answers).2 ∧
      HonestReaddir w.contents (w.read fd maxSize answers).2 ∧
      ∃ out, (w.read fd maxSize answers).1.1 = .ok out
  | .change path _ =>
    ∀ fd ∈ w.process.opened, ∀ bytes, w.reading fd = .yielded bytes → w.refersTo fd ≠ some path

/-- What a read yields: with what came before since the fd was bound, records of the directory that
the fd refers to, from the first on, and all of them when it reports the end. -/
def EntriesExact (w : DirWorld) : DirEvent → Prop
  | .readEntries fd maxSize answers =>
    ∀ out, (w.read fd maxSize answers).1.1 = .ok out → ∀ before,
      (w.reading fd = .unread ∧ before = []) ∨ w.reading fd = .yielded before →
      ∃ path, w.refersTo fd = some path ∧ before ++ out <+: records 0 (w.contents path) ∧
        (out = [] → before = records 0 (w.contents path))
  | _ => True

/-- Every stream in use that an fd owns is one of the directory that the fd refers to. -/
def StreamsCurrent (w : DirWorld) : Prop :=
  ∀ slot < kMaxDirs, (w.process.libc.dirStreams slot).inUse = true →
    (w.process.libc.dirStreams slot).fromFd = true →
    w.refersTo (w.process.libc.dirStreams slot).ownerFd =
      some (w.process.libc.dirStreams slot).path

/-- Both, of a step. -/
def ReadsDirs (w : DirWorld) (e : DirEvent) : Prop := EntriesExact w e ∧ StreamsCurrent (w.step e)

/-- No `Dup2` onto an fd that has been read since it was bound, no `Close` of an fd that is not open,
and a directory that is read for the first time fits the snapshot. -/
def DirProvided (w : DirWorld) : DirEvent → Prop
  | .call (.dup2 _ newfd) _ _ => w.reading newfd.toNat = .unread
  | .call (.close fd) _ _ => ∃ f ∈ w.process.opened, fd = f
  | .readEntries fd _ _ =>
    w.reading fd = .unread → ∀ path, w.refersTo fd = some path →
      (w.contents path).length ≤ kMaxDirEntries
  | _ => True

/-! ## What the calls change -/

/-- A sysdep that leaves the directory streams. -/
def KeepsDirs {α : Type} (m : Sys α) : Prop :=
  ∀ s trace r s', Act.Runs m s trace r s' → s'.dirStreams = s.dirStreams

section
variable {α β : Type}

/-- A returned value leaves the directory streams. -/
theorem keepsDirs_pure (x : α) : KeepsDirs (pure x : Sys α) := by
  intro s trace r s' h
  obtain ⟨-, -, rfl⟩ := Act.runs_pure.1 h
  rfl

/-- A raised error leaves the directory streams. -/
theorem keepsDirs_throw (e : Errno) : KeepsDirs (Act.throw e : Sys α) := by
  intro s trace r s' h
  obtain ⟨-, -, rfl⟩ := Act.runs_throw.1 h
  rfl

/-- Sysdeps in sequence leave the streams that both do. -/
theorem keepsDirs_bind {m : Sys α} {f : α → Sys β} (hm : KeepsDirs m)
    (hf : ∀ x, KeepsDirs (f x)) : KeepsDirs (m >>= f) := by
  intro s trace r s' h
  rcases Act.runs_bind.1 h with ⟨e, h, -⟩ | ⟨x, mid, first, last, h1, h2, -⟩
  · exact hm _ _ _ _ h
  · calc s'.dirStreams = mid.dirStreams := hf x _ _ _ _ h2
      _ = s.dirStreams := hm _ _ _ _ h1

/-- A kernel call leaves the directory streams. -/
theorem keepsDirs_syscall (c : KCall) : KeepsDirs (syscall c) := by
  refine keepsDirs_bind (m := Act.ask c) ?_ fun a => ?_
  · intro s trace r s' h
    obtain ⟨a, -, -, rfl⟩ := Act.runs_ask.1 h
    rfl
  · split
    · exact keepsDirs_throw _
    · exact keepsDirs_pure _

/-- Looking up a handle leaves the directory streams. -/
theorem keepsDirs_withHandle {fd : ℤ} {next : ℤ → Sys α} (h : ∀ handle, KeepsDirs (next handle)) :
    KeepsDirs (withHandle fd next) := by
  intro s trace r s' hrun
  rw [runs_withHandle] at hrun
  split at hrun
  · obtain ⟨-, -, rfl⟩ := hrun
    rfl
  · exact h _ _ _ _ _ hrun

/-- Storing a handle leaves the directory streams. -/
theorem keepsDirs_setFd (fd : ℕ) (handle : ℤ) :
    KeepsDirs (Act.modify fun s => s.setFd fd handle : Sys Unit) := by
  intro s trace r s' h
  obtain ⟨-, -, rfl⟩ := Act.runs_modify.1 h
  rfl

/-- Registering a handle leaves the directory streams. -/
theorem keepsDirs_newFd (handle min : ℤ) : KeepsDirs (newFd handle min) := by
  intro s trace r s' h
  rcases runs_newFd.1 h with ⟨fd, -, -, -, rfl⟩ | ⟨-, a, -, -, rfl⟩
  · rfl
  · rfl

/-- Resolving a path leaves the directory streams. -/
theorem keepsDirs_atResolve (dirfd : ℤ) (path : Option (List Byte)) (outsz : ℕ) :
    KeepsDirs (atResolve dirfd path outsz) := by
  unfold atResolve
  cases path with
  | none => exact keepsDirs_throw _
  | some path =>
    dsimp only
    split
    · exact keepsDirs_pure _
    · refine keepsDirs_withHandle fun handle => ?_
      exact keepsDirs_bind (keepsDirs_syscall _) fun a => keepsDirs_pure _

end

/-- Of the calls of the runs, only `Close` touches a stream: the one that its fd owns. -/
theorem dirStreams_of_dirCall {i : Invocation} {s s' : Libc} {trace : List (KCall × Answer)}
    {r : Except Errno (List ℕ)} (hi : i.IsDirCall) (hrun : Act.Runs i.run s trace r s') :
    match i with
    | .close fd => fd < kDirHandleBase → s'.dirStreams = (releaseDir fd s).dirStreams
    | _ => s'.dirStreams = s.dirStreams := by
  cases i with
  | «open» path flags mode =>
    refine keepsDirs_bind ?_ (fun fd => keepsDirs_pure _) _ _ _ _ hrun
    exact keepsDirs_bind (keepsDirs_syscall _) fun a => keepsDirs_newFd _ _
  | openat dirfd path flags mode =>
    refine keepsDirs_bind ?_ (fun fd => keepsDirs_pure _) _ _ _ _ hrun
    refine keepsDirs_bind (keepsDirs_atResolve _ _ _) fun p => ?_
    exact keepsDirs_bind (keepsDirs_syscall _) fun a => keepsDirs_newFd _ _
  | dup fd =>
    refine keepsDirs_bind ?_ (fun fd => keepsDirs_pure _) _ _ _ _ hrun
    refine keepsDirs_withHandle fun handle => ?_
    exact keepsDirs_bind (keepsDirs_syscall _) fun a => keepsDirs_newFd _ _
  | dup2 fd newfd =>
    refine keepsDirs_bind ?_ (fun fd => keepsDirs_pure _) _ _ _ _ hrun
    refine keepsDirs_withHandle fun handle => ?_
    split
    · exact keepsDirs_throw _
    · intro s trace r s' hrun
      rw [Act.runs_get_bind] at hrun
      refine keepsDirs_bind (keepsDirs_syscall _) (fun a => ?_) _ _ _ _ hrun
      unfold registerFdAt
      split
      · exact keepsDirs_pure _
      · exact keepsDirs_setFd _ _
  | close fd =>
    -- Closing the fd first gives up its stream, and nothing behind that touches one.
    intro hbase
    rw [Invocation.run, sysClose, if_neg (Int.not_le.2 hbase), bind_assoc,
      Act.runs_modify_bind] at hrun
    refine keepsDirs_bind (keepsDirs_withHandle fun handle => ?_) (fun _ => keepsDirs_pure _)
      _ _ _ _ hrun
    split
    · exact keepsDirs_pure _
    · exact keepsDirs_bind (keepsDirs_syscall _) fun a => keepsDirs_setFd _ _
  | _ => exact absurd hi id

section
variable {refs : Refs} {opened : Option (List Byte)} {c : KCall} {a : Answer}

/-- Only the handles that a call grants refer to something else after it. -/
theorem refs_after_of_not_granted (hc : a.ok = true → c.number ≠ .close ∧ c.number ≠ .dup2) {h : ℤ}
    (hg : h ∉ granted c a) : refs.after opened c a h = refs h := by
  unfold Refs.after
  split
  · rfl
  · next hok =>
    have hok : a.ok = true := Bool.eq_true_of_not_eq_false hok
    unfold granted at hg
    rw [if_pos hok] at hg
    split
    · next hnumber =>
      rw [hnumber] at hg
      exact Function.update_of_ne (fun heq => hg (List.mem_singleton.2 heq)) _ _
    · split
      · next hnumber =>
        have hdup := hnumber.resolve_right (hc hok).2
        rw [hdup] at hg
        exact Function.update_of_ne (fun heq => hg (List.mem_singleton.2 heq)) _ _
      · rw [if_neg (hc hok).1]

/-- Quiet calls change nothing. -/
theorem refs_run_of_quiet {trace : List (KCall × Answer)} (h : QuietTrace trace) :
    refs.run opened trace = refs := by
  induction trace generalizing refs with
  | nil => rfl
  | cons step trace ih =>
    obtain ⟨c, a⟩ := step
    obtain ⟨hquiet, hrest⟩ := quietTrace_cons.1 h
    have hstep : refs.after opened c a = refs := by
      funext h
      apply refs_after_of_not_granted hquiet.2
      rw [hquiet.1]
      exact List.not_mem_nil
    show Refs.run (refs.after opened c a) opened trace = refs
    rw [hstep]
    exact ih hrest

/-- A dup2 makes the handle that it returns refer to what the other one does. -/
theorem refs_after_dup2 {handle target : ℤ} (ha : a.ok = true) :
    refs.after opened (kcall .dup2 [handle, target] []) a =
      Function.update refs a.ret (refs handle) := by
  simp [Refs.after, kcall, ha]

/-- A handle that was closed refers to nothing. -/
theorem refs_after_close {handle : ℤ} (ha : a.ok = true) :
    refs.after opened (kcall .close [handle] []) a = Function.update refs handle none := by
  simp [Refs.after, kcall, ha]

/-- Traces in sequence change what handles refer to in sequence. -/
theorem refs_run_append {t t' : List (KCall × Answer)} :
    refs.run opened (t ++ t') = (refs.run opened t).run opened t' := List.foldl_append

end

/-! ## Distinct handles -/

section
variable {live : Live} {table : FdTable} {opened : Set ℕ}

/-- No slot holds a fresh handle. -/
theorem Owned.ne_of_fresh (h : Owned [] live table) {handle : ℤ} (hfresh : Fresh live handle)
    {f : ℕ} (hf : f < kMaxFd) : table f ≠ handle := by
  intro heq
  by_cases hz : table f = 0
  · have hlt := hfresh.2
    omega
  · exact hfresh.1 (heq ▸ (h.entries f hf hz).1)

/-- Two fds hold the same handle only if they are the same. -/
theorem Owned.ne_of_ne (h : Owned [] live table) {f g : ℕ} (hf : f < kMaxFd) (hg : g < kMaxFd)
    (hopen : f < 3 ∨ table f ≠ 0) (hz : table g ≠ 0) (hne : f ≠ g) : table f ≠ table g := by
  intro heq
  obtain ⟨hlive, hpending⟩ := h.entries g hg hz
  exact hne ((h.held _ hlive hpending).unique ⟨hf, hopen, heq⟩ ⟨hg, Or.inr hz, rfl⟩)

/-- An open fd has a slot that holds its handle. -/
theorem Consistent.open_slot (hc : Consistent table opened) {f : ℕ} (hf : f ∈ opened) :
    f < kMaxFd ∧ (f < 3 ∨ table f ≠ 0) :=
  ⟨hc.opened_lt f hf, (hc.opened_iff f (hc.opened_lt f hf)).1 hf⟩

/-- A granted handle that goes into a slot is another than those of the fds that were open, which
refer to what they did. -/
theorem others_of_granted (h : Owned [] live table) (hc : Consistent table opened)
    {pre : List (KCall × Answer)} {c : KCall} {a : Answer} {handle : ℤ} {fd : ℕ}
    (hpre : QuietTrace pre) (hg : granted c a = [handle])
    (hne : c.number ≠ .close ∧ c.number ≠ .dup2) (hl : Allowed (live.run pre) c a) (refs : Refs)
    (file : Option (List Byte)) {f : ℕ} (hf : f ∈ opened) (hfd : f ≠ fd) :
    Function.update table fd handle f = table f ∧
      refs.run file (pre ++ [(c, a)]) (table f) = refs (table f) := by
  refine ⟨Function.update_of_ne hfd _ _, ?_⟩
  have hfresh : Fresh live handle := by
    have hmem := hl.1 handle (hg ▸ List.mem_singleton_self handle)
    rwa [run_of_quiet hpre] at hmem
  have hhandle : table f ∉ granted c a := by
    rw [hg, List.mem_singleton]
    exact h.ne_of_fresh hfresh (hc.open_slot hf).1
  rw [refs_run_append, refs_run_of_quiet hpre]
  exact refs_after_of_not_granted (fun _ => hne) hhandle

/-- The handle that a `Dup2` onto the handle of an fd returns is that of no other open fd. -/
theorem ne_of_replaced (h : Owned [] live table) (hc : Consistent table opened) {newfd : ℕ}
    (hlt : newfd < kMaxFd) (hcase : table newfd ≠ 0 ∨ newfd < 3) {handle : ℤ} {a : Answer}
    (ha : a.ok = true) (hl : Allowed live
      (kcall .dup2 [handle, if table newfd ≠ 0 then table newfd else newfd] []) a)
    {f : ℕ} (hf : f ∈ opened) (hfd : f ≠ newfd) : table f ≠ a.ret := by
  obtain ⟨hflt, hopen⟩ := hc.open_slot hf
  rcases dup2_ret hl ha with htarget | hfresh
  · rw [htarget]
    split
    · next hz => exact h.ne_of_ne hflt hlt hopen hz hfd
    · next hz =>
      -- The target is the slot of stdin, and the only one that can hold 0.
      have hzero := not_not.1 hz
      have hstdin : newfd = 0 := by
        have hstd := hcase.resolve_left hz
        exact (h.slot_of_zero hzero).resolve_right (Nat.not_le.2 hstd)
      subst hstdin
      intro hf0
      have hfz : table f = 0 := hf0
      rcases hopen with hstd | hne0
      · exact hfd ((h.slot_of_zero hfz).resolve_right (Nat.not_le.2 hstd))
      · exact hne0 hfz
  · exact h.ne_of_fresh hfresh hflt

/-- After that `Dup2` the other open fds hold what they held, which refers to what it did. -/
theorem others_of_replaced (h : Owned [] live table) (hc : Consistent table opened) {newfd : ℕ}
    (hlt : newfd < kMaxFd) (hcase : table newfd ≠ 0 ∨ newfd < 3) {handle : ℤ} {a : Answer}
    (ha : a.ok = true) (hl : Allowed live
      (kcall .dup2 [handle, if table newfd ≠ 0 then table newfd else newfd] []) a)
    (refs : Refs) (file : Option (List Byte)) {f : ℕ} (hf : f ∈ opened) (hfd : f ≠ newfd) :
    Function.update table newfd a.ret f = table f ∧
      refs.run file
        [(kcall .dup2 [handle, if table newfd ≠ 0 then table newfd else newfd] [], a)] (table f) =
      refs (table f) := by
  refine ⟨Function.update_of_ne hfd _ _, ?_⟩
  show refs.after file _ a (table f) = refs (table f)
  rw [refs_after_dup2 ha]
  exact Function.update_of_ne (ne_of_replaced h hc hlt hcase ha hl hf hfd) _ _

/-- Closing an fd leaves the other open ones. -/
theorem others_of_closed (h : Owned [] live table) (hc : Consistent table opened) {fd : ℕ}
    (h3 : 3 ≤ fd) (hlt : fd < kMaxFd) (hopen : fd ∈ opened) {a : Answer} (ha : a.ok = true)
    (refs : Refs) (file : Option (List Byte)) {f : ℕ} (hf : f ∈ opened) (hfd : f ≠ fd) :
    Function.update table fd 0 f = table f ∧
      refs.run file [(kcall .close [table fd] [], a)] (table f) = refs (table f) := by
  refine ⟨Function.update_of_ne hfd _ _, ?_⟩
  have hz : table fd ≠ 0 := (hc.open_slot hopen).2.resolve_left (Nat.not_lt.2 h3)
  show refs.after file _ a (table f) = refs (table f)
  rw [refs_after_close ha]
  exact Function.update_of_ne
    (h.ne_of_ne (hc.open_slot hf).1 hlt (hc.open_slot hf).2 hz hfd) _ _

/-- What a successful call changes for the fds that were open: nothing, but for the one that it
binds or closes. The handles that they hold refer to what they did. -/
theorem others_of_outcome {i : Invocation} {trace : List (KCall × Answer)} {fds : List ℕ}
    {table' : FdTable} (h : Owned [] live table) (hc : Consistent table opened)
    (ho : Outcome i table trace (.ok fds) table') (hi : i.IsDirCall) (hl : Legal live trace)
    (hclose : ∀ fd, i = .close fd → ∃ f ∈ opened, fd = f) (refs : Refs)
    (file : Option (List Byte)) :
    Owned [] (live.run trace) table' ∧
      ((∃ fd, fds = [fd] ∧ (∀ fd', i ≠ .close fd') ∧ fd < kMaxFd ∧
          (fd ∉ opened ∨ ∃ fd', i = .dup2 fd' fd) ∧ ∀ f ∈ opened, f ≠ fd →
            table' f = table f ∧ refs.run file trace (table f) = refs (table f)) ∨
        ∃ fd, i = .close fd ∧ ∀ f ∈ opened, (f : ℤ) ≠ fd →
          table' f = table f ∧ refs.run file trace (table f) = refs (table f)) := by
  cases ho with
  | idle hidle hq =>
    -- Of these calls only a close may do nothing.
    rw [run_of_quiet hq, refs_run_of_quiet hq]
    cases i with
    | close fd => exact ⟨h, Or.inr ⟨fd, rfl, fun f _ _ => ⟨rfl, rfl⟩⟩⟩
    | fcntl fd request arg => exact absurd hi id
    | msgRecv fd room flags alloc => exact absurd hi id
    | ioctl fd request arg => exact absurd hi id
    | _ => exact absurd hidle id
  | opened hopens hpre ha hg hne hfree =>
    rename_i pre c a handle fd
    obtain ⟨hle, hlt, hz, -⟩ := freeFd_eq_some.1 hfree
    have h3 : 3 ≤ fd := by
      cases i with
      | fcntl fd request arg => exact absurd hi id
      | _ =>
        have hmin : (3 : ℤ) ≤ fd := hle
        omega
    have hfresh : fd ∉ opened := by
      intro hmem
      rcases (hc.open_slot hmem).2 with hstd | hz'
      · omega
      · exact hz' hz
    exact ⟨h.opened hpre hg hne (legal_mid hl) hlt hz (Or.inl h3), Or.inl ⟨fd, rfl,
      (by rintro fd' rfl; exact hopens), hlt, Or.inl hfresh,
      fun f hf hfd => others_of_granted h hc hpre hg hne (legal_mid hl) refs file hf hfd⟩⟩
  | replaced hi' hlt hcase ha =>
    rename_i fd newfd handle a
    have hallowed := (legal_cons.1 hl).1
    refine ⟨?_, Or.inl ⟨newfd, rfl, ?_, hlt, Or.inr ⟨fd, hi'⟩,
      fun f hf hfd => others_of_replaced h hc hlt hcase ha hallowed refs file hf hfd⟩⟩
    · rw [run_cons, run_nil, after_dup2 ha]
      exact h.replace hlt hcase ha hallowed
    · rintro fd' rfl
      cases hi'
  | placed hi' hlt hz h3 ha =>
    rename_i fd newfd handle a
    have hg : granted (kcall .dup [handle] []) a = [a.ret] := granted_of_opener rfl ha
    have hallowed := (legal_cons.1 hl).1
    exact ⟨h.opened quietTrace_nil hg (ne_of_opener rfl) hallowed hlt hz (Or.inl h3),
      Or.inl ⟨newfd, rfl, (by rintro fd' rfl; cases hi'), hlt, Or.inr ⟨fd, hi'⟩, fun f hf hfd =>
        others_of_granted h hc quietTrace_nil hg (ne_of_opener rfl) hallowed refs file hf hfd⟩⟩
  | closed hi' h3 hlt ha =>
    rename_i fd a
    obtain ⟨g, hg, heq⟩ := hclose fd hi'
    obtain rfl := Int.ofNat.inj heq
    refine ⟨?_, Or.inr ⟨fd, hi', fun f hf hne =>
      others_of_closed h hc h3 hlt hg ha refs file hf fun heq => hne (congrArg Int.ofNat heq)⟩⟩
    rw [run_cons, run_nil, after_close _ ha]
    exact h.close h3 hlt
  | pair hopens _ _ _ _ =>
    cases i with
    | pipe => exact absurd hi id
    | socketpair domain type proto => exact absurd hi id
    | _ => exact absurd hopens id
  | received hrecv _ _ =>
    obtain ⟨fd, room, flags, alloc, rfl⟩ := hrecv
    exact absurd hi id

end

/-! ## One read -/

/-- An fd owns the stream in a slot. -/
structure OwnsStream (s : Libc) (slot : ℕ) (fd : ℤ) : Prop where
  lt : slot < kMaxDirs
  inUse : (s.dirStreams slot).inUse = true
  fromFd : (s.dirStreams slot).fromFd = true
  owner : (s.dirStreams slot).ownerFd = fd

section
variable {s s' : Libc} {trace : List (KCall × Answer)} {fd : ℤ} {slot maxSize : ℕ}

/-- A stream that is found is the fd's. -/
theorem ownsStream_of_find (h : findDirStreamByFd s fd = some slot) : OwnsStream s slot fd := by
  obtain ⟨-, hlt, hp, -⟩ := findStream_eq_some.1 h
  rw [Bool.and_eq_true, Bool.and_eq_true, decide_eq_true_eq] at hp
  exact ⟨by omega, hp.1.1, hp.1.2, hp.2⟩

/-- When none is found the fd has none. -/
theorem not_ownsStream_of_find (h : findDirStreamByFd s fd = none) (slot : ℕ) :
    ¬OwnsStream s slot fd := by
  intro howns
  have hp := findStream_eq_none.1 h slot (Nat.zero_le _) (by have := howns.lt; omega)
  rw [howns.inUse, howns.fromFd, howns.owner] at hp
  simp at hp

/-- The streams of a table in which one has been replaced. -/
theorem ownsStream_update {d : DirStream}
    (h : s'.dirStreams = Function.update s.dirStreams slot d) {k : ℕ} (hk : k ≠ slot) :
    OwnsStream s' k fd ↔ OwnsStream s k fd := by
  have hd : s'.dirStreams k = s.dirStreams k := by rw [h, Function.update_of_ne hk]
  constructor
  · rintro ⟨h0, h1, h2, h3⟩
    rw [hd] at h1 h2 h3
    exact ⟨h0, h1, h2, h3⟩
  · rintro ⟨h0, h1, h2, h3⟩
    exact ⟨h0, hd ▸ h1, hd ▸ h2, hd ▸ h3⟩

/-- A stream just taken for a path, which an fd owns. -/
def ownedStream (fd : ℤ) (path : List Byte) (d : DirStream) : DirStream :=
  { openedStream path d with fromFd := true, ownerFd := fd }

/-- The stream that an fd gets on its first read. -/
def newStream (fd : ℤ) (path : List Byte) (a : Answer) (d : DirStream) : DirStream :=
  loadedStream a (ownedStream fd path d)

/-- The stream that a read works on: the one that the fd owns, or a new one with a snapshot of the
directory that the kernel reports for it. -/
inductive ReadsFrom (s : Libc) (fd : ℤ) : ℕ → DirStream → List (KCall × Answer) → Prop
  | owned {slot : ℕ} : OwnsStream s slot fd → ReadsFrom s fd slot (s.dirStreams slot) []
  | new {slot : ℕ} {a a' : Answer} : (∀ k, ¬OwnsStream s k fd) → slot < kMaxDirs →
    (s.dirStreams slot).inUse = false → a.ok = true → a.ret < kDirBuffer → a'.ok = true →
    ReadsFrom s fd slot (newStream fd (answered a) a' (s.dirStreams slot))
      [(kcall .fdPath [handleForFd s.fdTable fd] [256], a), (readdirCall (answered a), a')]

/-- A read works on a stream of the table. -/
theorem ReadsFrom.lt {d : DirStream} (h : ReadsFrom s fd slot d trace) : slot < kMaxDirs := by
  cases h with
  | owned howns => exact howns.lt
  | new _ hlt _ _ _ _ => exact hlt

/-- The calls of a read open and close nothing. -/
theorem ReadsFrom.quiet {d : DirStream} (h : ReadsFrom s fd slot d trace) : QuietTrace trace := by
  cases h with
  | owned howns => exact quietTrace_nil
  | new _ _ _ _ _ _ =>
    exact quietTrace_cons.2
      ⟨quiet_of_plain rfl _, quietTrace_cons.2 ⟨quiet_of_plain rfl _, quietTrace_nil⟩⟩

/-- No other slot is the fd's, if it owns one at most. -/
theorem ReadsFrom.slot_eq {d : DirStream} (h : ReadsFrom s fd slot d trace)
    (hunique : ∀ k k', OwnsStream s k fd → OwnsStream s k' fd → k = k') {k : ℕ}
    (hk : OwnsStream s k fd) : k = slot := by
  cases h with
  | owned howns => exact hunique _ _ hk howns
  | new hnone _ _ _ _ _ => exact absurd hk (hnone k)

/-- The slot is no other fd's. -/
theorem ReadsFrom.fd_eq {d : DirStream} (h : ReadsFrom s fd slot d trace) {fd' : ℤ}
    (hfd' : OwnsStream s slot fd') : fd' = fd := by
  cases h with
  | owned howns => exact hfd'.owner.symm.trans howns.owner
  | new _ _ hfree _ _ _ =>
    rw [hfd'.inUse] at hfree
    cases hfree

/-- A read that succeeds yields what its stream has next and moves the cursor. -/
theorem readsFrom_of_ok {out : List Byte} (hfd : fd < kDirHandleBase)
    (hloaded : ∀ k, OwnsStream s k fd → (s.dirStreams k).loaded = true)
    (hrun : Act.Runs (sysReadEntries fd maxSize) s trace (.ok out) s') :
    ∃ slot d, ReadsFrom s fd slot d trace ∧ out = (d.fill maxSize).1 ∧ s'.fdTable = s.fdTable ∧
      s'.dirStreams = Function.update s.dirStreams slot (movedStream (d.fill maxSize).2 d) := by
  rw [sysReadEntries_eq] at hrun
  unfold streamFor at hrun
  rw [bind_assoc, Act.runs_get_bind] at hrun
  dsimp only at hrun
  rw [if_neg (Int.not_le.2 hfd)] at hrun
  cases hfind : findDirStreamByFd s fd with
  | some slot =>
    -- The fd has a stream, which has been loaded.
    have howns := ownsStream_of_find hfind
    rw [hfind] at hrun
    dsimp only at hrun
    rw [Act.runs_pure_bind, runs_readStream, if_pos (hloaded slot howns)] at hrun
    obtain ⟨rfl, hout, rfl⟩ := hrun
    exact ⟨slot, _, .owned howns, Except.ok.inj hout, rfl, rfl⟩
  | none =>
    -- A stream is taken for the path that the kernel reports, and then loaded; what fails on the
    -- way is no read that succeeds.
    rw [hfind] at hrun
    dsimp only at hrun
    unfold fdToPath at hrun
    rw [bind_assoc, withHandle_bind, runs_withHandle] at hrun
    split at hrun
    · obtain ⟨-, habs, -⟩ := hrun
      cases habs
    · rw [bind_assoc] at hrun
      obtain ⟨a, rest, rfl, ⟨-, -, habs, -⟩ | ⟨ha, hrun⟩⟩ := runs_syscall_bind.1 hrun
      · cases habs
      · split at hrun
        · obtain ⟨-, habs, -⟩ := Act.runs_throw_bind.1 hrun
          cases habs
        · next hret =>
          rw [Act.runs_pure_bind, bind_assoc, runs_allocDirStream_bind] at hrun
          cases hfree : freeStream s with
          | none =>
            rw [hfree] at hrun
            obtain ⟨-, habs, -⟩ := Act.runs_throw_bind.1 hrun
            cases habs
          | some slot =>
            rw [hfree] at hrun
            dsimp only at hrun
            rw [Option.elim_some, bind_assoc, Act.runs_modify_bind, Act.runs_pure_bind,
              runs_readStream] at hrun
            obtain ⟨-, hlt, huse, -⟩ := findStream_eq_some.1 hfree
            have hnone := not_ownsStream_of_find hfind
            generalize hs2 : ((s.setDir slot _).setDir slot _ : Libc) = s2 at hrun
            have hothers : s2.dirStreams =
                Function.update s.dirStreams slot
                  (ownedStream fd (answered a) (s.dirStreams slot)) := by
              rw [← hs2, dirStreams_setDir, dirStreams_setDir, Function.update_idem,
                Function.update_self]
              rfl
            have hd : s2.dirStreams slot = ownedStream fd (answered a) (s.dirStreams slot) := by
              rw [hothers, Function.update_self]
            have htable : s2.fdTable = s.fdTable := by
              rw [← hs2]
              rfl
            have hunloaded : ¬(ownedStream fd (answered a) (s.dirStreams slot)).loaded = true :=
              Bool.false_ne_true
            have hpath : (ownedStream fd (answered a) (s.dirStreams slot)).path = answered a := by
              apply List.take_of_length_le
              unfold answered
              rw [List.length_map, List.length_range]
              omega
            rw [hd, if_neg hunloaded, hpath] at hrun
            obtain ⟨a', rfl, ⟨-, habs, -⟩ | ⟨ha', hout, rfl⟩⟩ := hrun
            · cases habs
            · refine ⟨slot, _, .new (a := a) hnone (by omega) (by simpa using huse) ha ?_ ha',
                Except.ok.inj hout, htable, ?_⟩
              · unfold kDirBuffer
                omega
              · rw [dirStreams_setDir, dirStreams_setDir, Function.update_idem,
                  Function.update_self, hothers, Function.update_idem, Function.update_self]
                rfl

end

/-- The records of a part of the entries are a first part of the records. -/
theorem records_take_prefix (entries : List Dirent) (n : ℕ) :
    records 0 (entries.take n) <+: records 0 entries := by
  have h := records_append 0 (entries.take n) (entries.drop n)
  rw [List.take_append_drop] at h
  rw [h]
  exact List.prefix_append _ _

/-- A record is not empty. -/
theorem reclen_pos (e : Dirent) : 0 < reclen e := by
  unfold reclen namePrefix
  omega

/-- Entries that have no records are none. -/
theorem eq_nil_of_records {cursor : ℕ} {entries : List Dirent} (h : records cursor entries = []) :
    entries = [] := by
  cases entries with
  | nil => rfl
  | cons e entries =>
    have hlen := congrArg List.length h
    rw [records, List.length_append, length_direntRecord, List.length_nil] at hlen
    have hpos := reclen_pos e
    omega

/-- The entries that a stream yields a read at a time, as a list whose records fit any buffer of 280
bytes: what a read adds to the records yielded. -/
theorem fill_spec {d : DirStream} {entries : List Dirent} {maxSize : ℕ}
    (hsnap : d.entries.take d.count = entries) (hfits : ∀ e ∈ entries, reclen e ≤ 280)
    (hcursor : d.cursor ≤ entries.length) (hsize : 280 ≤ maxSize) :
    ∃ n ≤ entries.length, (d.fill maxSize).2 = n ∧
      records 0 (entries.take d.cursor) ++ (d.fill maxSize).1 = records 0 (entries.take n) ∧
      ((d.fill maxSize).1 = [] → n = entries.length ∧ d.cursor = entries.length) := by
  obtain ⟨k, hk, heq, -, hlast⟩ := fill_piece hsnap hfits hsize
  refine ⟨d.cursor + k, by omega, by rw [heq], ?_, ?_⟩
  · have happend := records_append 0 (entries.take d.cursor) ((entries.drop d.cursor).take k)
    have hlen : 0 + (entries.take d.cursor).length = d.cursor := by
      rw [List.length_take]
      omega
    rw [hlen] at happend
    rw [heq, ← happend, List.take_add]
  · intro hnil
    rw [heq] at hnil
    -- A read that yields nothing has no entry left, as one would have fitted.
    have hdrop : entries.drop d.cursor = [] := by
      rcases List.take_eq_nil_iff.1 (eq_nil_of_records hnil) with hk | hdrop
      · exact hlast hk
      · exact hdrop
    have hlen := congrArg List.length hdrop
    rw [List.length_drop, List.length_nil] at hlen
    omega

/-- The snapshot that an honest answer brings is the directory, when there is room for it. -/
theorem loaded_of_lists {entries : List Dirent} {a : Answer} (h : Lists entries a)
    (hroom : entries.length ≤ kMaxDirEntries) (d : DirStream) :
    (loadedStream a d).entries.take (loadedStream a d).count = entries ∧
      ∀ e ∈ entries, reclen e ≤ 280 := by
  obtain ⟨n, hret, hn, hall, hentries⟩ := h
  have hlen := hall hroom
  have hcount : (loadedStream a d).count = n := by
    have hword : u32 (n : ℤ) = n := by
      unfold u32
      unfold kMaxDirEntries at hn
      omega
    show u32 a.ret = n
    rw [hret, hword]
  -- Place by place the snapshot is the directory.
  have heq : (List.range n).map (direntAt a.block) = entries := by
    apply List.ext_getElem?
    intro i
    rcases Nat.lt_or_ge i n with hi | hi
    · rw [List.getElem?_map, List.getElem?_range hi, hentries i hi, Option.map_some]
    · have hmap : ((List.range n).map (direntAt a.block)).length ≤ i := by
        rw [List.length_map, List.length_range]
        exact hi
      rw [List.getElem?_eq_none hmap, List.getElem?_eq_none (hlen ▸ hi)]
  refine ⟨?_, ?_⟩
  · rw [hcount]
    show ((List.range kMaxDirEntries).map (direntAt a.block)).take n = entries
    rw [← List.map_take, List.take_range, Nat.min_eq_left hn, heq]
  · intro e he
    rw [← heq] at he
    obtain ⟨i, -, rfl⟩ := List.mem_map.1 he
    exact reclen_direntAt_le a.block i

/-! ## The invariant -/

/-- A stream of an open fd: it has its snapshot, of the directory that the fd refers to, and while
the fd is being read the snapshot is what the directory contains and the cursor stands behind what
was yielded. -/
structure StreamOf (w : DirWorld) (fd : ℕ) (d : DirStream) : Prop where
  loaded : d.loaded = true
  refers : w.refersTo fd = some d.path
  read : w.reading fd ≠ .unread
  snapshot : ∀ bytes, w.reading fd = .yielded bytes →
    d.entries.take d.count = w.contents d.path ∧ (∀ e ∈ w.contents d.path, reclen e ≤ 280) ∧
      d.cursor ≤ (w.contents d.path).length ∧
      bytes = records 0 ((w.contents d.path).take d.cursor)

/-- Every stream that an fd owns is its only one, belongs to an open fd that has been read, and is
in order; and an open fd that has been read has one. -/
structure DirInv (w : DirWorld) : Prop where
  owned : Owned [] w.process.live w.process.libc.fdTable
  consistent : Consistent w.process.libc.fdTable w.process.opened
  stream : ∀ slot fd, OwnsStream w.process.libc slot fd →
    ∃ f ∈ w.process.opened, fd = (f : ℤ) ∧ StreamOf w f (w.process.libc.dirStreams slot)
  unique : ∀ slot slot' fd, OwnsStream w.process.libc slot fd → OwnsStream w.process.libc slot' fd →
    slot = slot'
  known : ∀ f ∈ w.process.opened, w.reading f ≠ .unread →
    ∃ slot, OwnsStream w.process.libc slot f

section
variable {w : DirWorld}

/-- An open fd is below the directory handles. -/
theorem DirInv.lt_base (h : DirInv w) {fd : ℕ} (hfd : fd ∈ w.process.opened) :
    (fd : ℤ) < kDirHandleBase := by
  have hlt := h.consistent.opened_lt fd hfd
  unfold kMaxFd at hlt
  unfold kDirHandleBase
  omega

/-- At the start no stream is in use and nothing is read. -/
theorem dirInv_start (refs : Refs) (contents : List Byte → List Dirent) :
    DirInv (DirWorld.start refs contents) where
  owned := owned_initial
  consistent := consistent_initial
  stream := fun _ _ howns => absurd howns.inUse Bool.false_ne_true
  unique := fun _ _ _ howns => absurd howns.inUse Bool.false_ne_true
  known := fun _ _ hne => absurd rfl hne

/-- A directory that nobody is reading may change. -/
theorem DirInv.change (h : DirInv w) {path : List Byte} {entries : List Dirent}
    (hd : DirDomain w (.change path entries)) : DirInv (w.step (.change path entries)) where
  owned := h.owned
  consistent := h.consistent
  stream := by
    intro slot fd howns
    obtain ⟨f, hf, rfl, hstream⟩ := h.stream slot fd howns
    refine ⟨f, hf, rfl, hstream.loaded, hstream.refers, hstream.read, ?_⟩
    intro bytes hbytes
    have hne : (w.process.libc.dirStreams slot).path ≠ path := by
      intro heq
      exact hd f hf bytes hbytes (heq ▸ hstream.refers)
    have hcontents : (w.step (.change path entries)).contents
        (w.process.libc.dirStreams slot).path =
        w.contents (w.process.libc.dirStreams slot).path := Function.update_of_ne hne _ _
    have hsnap := hstream.snapshot bytes hbytes
    rw [← hcontents] at hsnap
    exact hsnap
  unique := h.unique
  known := h.known

/-- The stream that a read works on is in order before it, but for the read itself: it has the
snapshot of the directory, and what was yielded is what stands before its cursor. -/
theorem DirInv.readsFrom (h : DirInv w) {fd maxSize : ℕ} {answers : ℕ → Answer}
    (hd : DirDomain w (.readEntries fd maxSize answers))
    (hp : DirProvided w (.readEntries fd maxSize answers)) {slot : ℕ} {d : DirStream}
    (hfrom : ReadsFrom w.process.libc fd slot d (w.read fd maxSize answers).2) :
    d.inUse = true ∧ d.fromFd = true ∧ d.ownerFd = fd ∧ d.loaded = true ∧
      w.refersTo fd = some d.path ∧
      ∀ before, (w.reading fd = .unread ∧ before = []) ∨ w.reading fd = .yielded before →
        d.entries.take d.count = w.contents d.path ∧ (∀ e ∈ w.contents d.path, reclen e ≤ 280) ∧
          d.cursor ≤ (w.contents d.path).length ∧
          before = records 0 ((w.contents d.path).take d.cursor) := by
  obtain ⟨hopen, -, hhonest, hlist, -⟩ := hd
  generalize (w.read fd maxSize answers).2 = trace at hfrom hhonest hlist
  cases hfrom with
  | owned howns =>
    obtain ⟨f, hf, heq, hstream⟩ := h.stream slot fd howns
    obtain rfl := Int.ofNat.inj heq
    refine ⟨howns.inUse, howns.fromFd, howns.owner, hstream.loaded, hstream.refers, ?_⟩
    rintro before (⟨hunread, -⟩ | hyielded)
    · exact absurd hunread hstream.read
    · exact hstream.snapshot before hyielded
  | new hnone hlt hfree ha hret ha' =>
    rename_i a a'
    have hunread : w.reading fd = .unread := by
      by_contra hne
      obtain ⟨slot', howns⟩ := h.known fd hopen hne
      exact hnone slot' howns
    -- The kernel's two answers report the path and list the directory.
    obtain ⟨dir, hdir, hreports⟩ := hhonest _ List.mem_cons_self rfl ha _ rfl
    have hlen : a.ret = dir.length := hreports.1
    have hpath : answered a = dir := by
      apply answered_eq hreports
      omega
    have hrefers : w.refersTo fd = some dir := hdir
    have hlists := hlist _ (List.mem_cons_of_mem _ List.mem_cons_self) rfl ha' _ rfl
    rw [hpath] at hlists ⊢
    obtain ⟨hsnap, hfits⟩ := loaded_of_lists hlists (hp hunread dir hrefers)
      (ownedStream fd dir (w.process.libc.dirStreams slot))
    have hnew : (newStream fd dir a' (w.process.libc.dirStreams slot)).path = dir := by
      apply List.take_of_length_le
      unfold kDirBuffer at hret
      omega
    rw [hnew]
    refine ⟨rfl, rfl, rfl, rfl, hrefers, ?_⟩
    rintro before (⟨-, rfl⟩ | hyielded)
    · exact ⟨hsnap, hfits, Nat.zero_le _, rfl⟩
    · rw [hunread] at hyielded
      cases hyielded

/-- The facts of a read that succeeds. -/
theorem DirInv.read_ok (h : DirInv w) {fd maxSize : ℕ} {answers : ℕ → Answer}
    (hd : DirDomain w (.readEntries fd maxSize answers)) :
    ∃ out slot d, (w.read fd maxSize answers).1.1 = .ok out ∧
      ReadsFrom w.process.libc fd slot d (w.read fd maxSize answers).2 ∧
      out = (d.fill maxSize).1 ∧
      (w.read fd maxSize answers).1.2.fdTable = w.process.libc.fdTable ∧
      (w.read fd maxSize answers).1.2.dirStreams =
        Function.update w.process.libc.dirStreams slot (movedStream (d.fill maxSize).2 d) := by
  obtain ⟨hopen, -, -, -, out, hok⟩ := hd
  have hrun := Act.exec_runs (sysReadEntries fd maxSize) w.process.libc answers
  have hloaded : ∀ k, OwnsStream w.process.libc k fd →
      (w.process.libc.dirStreams k).loaded = true := by
    intro k howns
    obtain ⟨f, hf, -, hstream⟩ := h.stream k fd howns
    exact hstream.loaded
  have hresult : ((sysReadEntries fd maxSize).exec w.process.libc answers).1.1 = .ok out := hok
  rw [hresult] at hrun
  obtain ⟨slot, d, hfrom, hout, htable, hstreams⟩ := readsFrom_of_ok (h.lt_base hopen) hloaded hrun
  exact ⟨out, slot, d, hok, hfrom, hout, htable, hstreams⟩

/-- What a read yields is exact. -/
theorem DirInv.entriesExact (h : DirInv w) {fd maxSize : ℕ} {answers : ℕ → Answer}
    (hd : DirDomain w (.readEntries fd maxSize answers))
    (hp : DirProvided w (.readEntries fd maxSize answers)) :
    EntriesExact w (.readEntries fd maxSize answers) := by
  intro out hout before hbefore
  obtain ⟨out', slot, d, hok, hfrom, hfill, -, -⟩ := h.read_ok hd
  obtain rfl : out' = out := Except.ok.inj (hok.symm.trans hout)
  obtain ⟨-, -, -, -, hrefers, hreading⟩ := h.readsFrom hd hp hfrom
  obtain ⟨hsnap, hfits, hcursor, hrecords⟩ := hreading before hbefore
  obtain ⟨n, -, -, hyields, hend⟩ := fill_spec hsnap hfits hcursor hd.2.1
  refine ⟨d.path, hrefers, ?_, ?_⟩
  · rw [hrecords, hfill, hyields]
    exact records_take_prefix _ _
  · intro hnil
    rw [hfill] at hnil
    rw [hrecords, (hend hnil).2, List.take_length]

/-- A stream of an fd stays in order when nothing that it depends on changes. -/
theorem StreamOf.of_same {w' : DirWorld} {f : ℕ} {d : DirStream} (h : StreamOf w f d)
    (hrefers : w'.refersTo f = w.refersTo f) (hreading : w'.reading f = w.reading f)
    (hcontents : w'.contents = w.contents) : StreamOf w' f d where
  loaded := h.loaded
  refers := hrefers.trans h.refers
  read := by
    rw [hreading]
    exact h.read
  snapshot := by
    rw [hreading, hcontents]
    exact h.snapshot

/-- What a read changes: the stream in one slot, which is the fd's then and was no other fd's, and
how far the fd has been read. -/
structure TakesSlot (w w' : DirWorld) (fd slot : ℕ) (d : DirStream) : Prop where
  live : w'.process.live = w.process.live
  opened : w'.process.opened = w.process.opened
  fdTable : w'.process.libc.fdTable = w.process.libc.fdTable
  dirStreams : w'.process.libc.dirStreams = Function.update w.process.libc.dirStreams slot d
  contents : w'.contents = w.contents
  refersTo : ∀ f : ℤ, w'.refersTo f = w.refersTo f
  reading : ∀ f : ℕ, f ≠ fd → w'.reading f = w.reading f
  owns : OwnsStream w'.process.libc slot fd
  slot_eq : ∀ k, OwnsStream w.process.libc k fd → k = slot
  fd_eq : ∀ fd', OwnsStream w.process.libc slot fd' → fd' = fd

/-- The slot is the fd's alone. -/
theorem TakesSlot.owner {w' : DirWorld} {fd slot : ℕ} {d : DirStream}
    (hw : TakesSlot w w' fd slot d) {fd' : ℤ} (hfd' : OwnsStream w'.process.libc slot fd') :
    fd' = fd := hfd'.owner.symm.trans hw.owns.owner

/-- The other slots are as they were. -/
theorem TakesSlot.ownsStream {w' : DirWorld} {fd slot : ℕ} {d : DirStream}
    (hw : TakesSlot w w' fd slot d) {k : ℕ} (hk : k ≠ slot) {fd' : ℤ} :
    OwnsStream w'.process.libc k fd' ↔ OwnsStream w.process.libc k fd' :=
  ownsStream_update hw.dirStreams hk

/-- A change of an open fd's stream keeps the invariant when the new stream is in order. -/
theorem DirInv.of_takesSlot (h : DirInv w) {w' : DirWorld} {fd slot : ℕ} {d : DirStream}
    (hw : TakesSlot w w' fd slot d) (hopen : fd ∈ w.process.opened) (hd : StreamOf w' fd d) :
    DirInv w' where
  owned := by
    rw [hw.live, hw.fdTable]
    exact h.owned
  consistent := by
    rw [hw.opened, hw.fdTable]
    exact h.consistent
  -- The stream's slot holds the new stream; the others are as they were.
  stream := by
    intro k fd' hk
    rw [hw.opened]
    by_cases hkslot : k = slot
    · subst hkslot
      obtain rfl := hw.owner hk
      refine ⟨fd, hopen, rfl, ?_⟩
      rw [hw.dirStreams, Function.update_self]
      exact hd
    · have hold := (hw.ownsStream hkslot).1 hk
      obtain ⟨f, hf, rfl, hstream⟩ := h.stream k fd' hold
      have hne : f ≠ fd := by
        rintro rfl
        exact hkslot (hw.slot_eq k hold)
      refine ⟨f, hf, rfl, ?_⟩
      rw [hw.dirStreams, Function.update_of_ne hkslot]
      exact hstream.of_same (hw.refersTo f) (hw.reading f hne) hw.contents
  unique := by
    intro k k' fd' hk hk'
    by_cases hkslot : k = slot
    · subst hkslot
      obtain rfl := hw.owner hk
      by_contra hne
      exact hne (hw.slot_eq k' ((hw.ownsStream (Ne.symm hne)).1 hk')).symm
    · have hold := (hw.ownsStream hkslot).1 hk
      by_cases hkslot' : k' = slot
      · subst hkslot'
        obtain rfl := hw.owner hk'
        exact absurd (hw.slot_eq k hold) hkslot
      · exact h.unique k k' fd' hold ((hw.ownsStream hkslot').1 hk')
  known := by
    intro f hf hne
    rw [hw.opened] at hf
    by_cases hffd : f = fd
    · rw [hffd]
      exact ⟨slot, hw.owns⟩
    · rw [hw.reading f hffd] at hne
      obtain ⟨k, hk⟩ := h.known f hf hne
      have hkslot : k ≠ slot := by
        rintro rfl
        exact hffd (Int.ofNat.inj (hw.fd_eq f hk))
      exact ⟨k, (hw.ownsStream hkslot).2 hk⟩

/-- A read keeps the invariant. -/
theorem DirInv.read (h : DirInv w) {fd maxSize : ℕ} {answers : ℕ → Answer}
    (hd : DirDomain w (.readEntries fd maxSize answers))
    (hp : DirProvided w (.readEntries fd maxSize answers)) :
    DirInv (w.step (.readEntries fd maxSize answers)) := by
  obtain ⟨out, slot, d, hok, hfrom, hfill, htable, hstreams⟩ := h.read_ok hd
  obtain ⟨huse, hfd, howner, hloaded, hrefers, hreading⟩ := h.readsFrom hd hp hfrom
  have hlive := run_of_quiet hfrom.quiet w.process.live
  generalize hw : w.step (.readEntries fd maxSize answers) = w'
  have hlibc : w'.process.libc = (w.read fd maxSize answers).1.2 := by
    rw [← hw]
    rfl
  have hread : w'.reading = Function.update w.reading fd ((w.reading fd).next out) := by
    rw [← hw]
    show w.readingAfter fd (w.read fd maxSize answers).1.1 = _
    rw [hok]
    rfl
  have hcontents : w'.contents = w.contents := by
    rw [← hw]
    rfl
  have hrefersTo : ∀ f : ℤ, w'.refersTo f = w.refersTo f := by
    intro f
    unfold DirWorld.refersTo
    rw [hlibc, htable, ← hw]
    rfl
  rw [← hlibc] at htable hstreams
  have hslot : w'.process.libc.dirStreams slot = movedStream (d.fill maxSize).2 d := by
    rw [hstreams, Function.update_self]
  have howns : OwnsStream w'.process.libc slot fd := by
    refine ⟨hfrom.lt, ?_, ?_, ?_⟩
    · rw [hslot]
      exact huse
    · rw [hslot]
      exact hfd
    · rw [hslot]
      exact howner
  have htakes : TakesSlot w w' fd slot (movedStream (d.fill maxSize).2 d) := by
    refine ⟨?_, ?_, htable, hstreams, hcontents, hrefersTo, ?_, howns, ?_, ?_⟩
    · rw [← hw]
      exact hlive
    · rw [← hw]
      rfl
    · intro f hf
      rw [hread, Function.update_of_ne hf]
    · exact fun k hk => hfrom.slot_eq (fun k k' => h.unique k k' fd) hk
    · exact fun fd' hfd' => hfrom.fd_eq hfd'
  refine h.of_takesSlot htakes hd.1 ⟨hloaded, ?_, ?_, ?_⟩
  · rw [hrefersTo]
    exact hrefers
  · rw [hread, Function.update_self]
    exact Reading.next_ne_unread _ _
  · intro bytes hbytes
    rw [hread, Function.update_self] at hbytes
    -- What the fd has yielded is what it had yielded before, and what this read yields.
    obtain ⟨before, hbefore, rfl⟩ := Reading.next_eq_yielded hbytes
    obtain ⟨hsnap, hfits, hcursor, hrecords⟩ := hreading before hbefore
    obtain ⟨n, hn, hmoved, hyields, -⟩ := fill_spec hsnap hfits hcursor hd.2.1
    rw [hcontents, hmoved]
    refine ⟨hsnap, hfits, hn, ?_⟩
    rw [hrecords, hfill]
    exact hyields

/-- After a call that binds an fd or closes one, the fd is unread and owns no stream, and the others
are as they were. -/
theorem DirInv.of_others (h : DirInv w) (w' : DirWorld) (fd : ℤ)
    (howned : Owned [] w'.process.live w'.process.libc.fdTable)
    (hconsistent : Consistent w'.process.libc.fdTable w'.process.opened)
    (hcontents : w'.contents = w.contents)
    (hback : ∀ k f', OwnsStream w'.process.libc k f' → f' ≠ fd ∧ OwnsStream w.process.libc k f' ∧
      w'.process.libc.dirStreams k = w.process.libc.dirStreams k)
    (hforth : ∀ k f', f' ≠ fd → OwnsStream w.process.libc k f' → OwnsStream w'.process.libc k f')
    (hopened : ∀ f : ℕ, (f : ℤ) ≠ fd → (f ∈ w'.process.opened ↔ f ∈ w.process.opened))
    (hothers : ∀ f ∈ w.process.opened, (f : ℤ) ≠ fd →
      w'.refersTo f = w.refersTo f ∧ w'.reading f = w.reading f)
    (hfd : ∀ f : ℕ, (f : ℤ) = fd → w'.reading f = .unread) : DirInv w' where
  owned := howned
  consistent := hconsistent
  stream := by
    intro k f' howns
    obtain ⟨hne, hold, hsame⟩ := hback k f' howns
    obtain ⟨f, hf, rfl, hstream⟩ := h.stream k f' hold
    obtain ⟨hrefers, hreading⟩ := hothers f hf hne
    refine ⟨f, (hopened f hne).2 hf, rfl, ?_⟩
    rw [hsame]
    exact hstream.of_same hrefers hreading hcontents
  unique := by
    intro k k' f' hk hk'
    exact h.unique k k' f' (hback k f' hk).2.1 (hback k' f' hk').2.1
  known := by
    intro f hf hne
    have hffd : (f : ℤ) ≠ fd := fun heq => hne (hfd f heq)
    have hopen := (hopened f hffd).1 hf
    rw [(hothers f hopen hffd).2] at hne
    obtain ⟨k, howns⟩ := h.known f hopen hne
    exact ⟨k, hforth k f hffd howns⟩

/-- An fd that is unread or not open owns no stream. -/
theorem DirInv.not_ownsStream (h : DirInv w) {fd : ℕ}
    (hfd : fd ∉ w.process.opened ∨ w.reading fd = .unread) (k : ℕ) :
    ¬OwnsStream w.process.libc k fd := by
  intro howns
  obtain ⟨f, hf, heq, hstream⟩ := h.stream k fd howns
  obtain rfl := Int.ofNat.inj heq
  rcases hfd with hclosed | hunread
  · exact hclosed hf
  · exact hstream.read hunread

/-- What `Close` does to the streams: the fd's is freed. -/
theorem DirInv.releaseDir (h : DirInv w) {s' : Libc} {fd : ℤ}
    (hstreams : s'.dirStreams = (releaseDir fd w.process.libc).dirStreams) :
    (∀ k f', OwnsStream s' k f' → f' ≠ fd ∧ OwnsStream w.process.libc k f' ∧
      s'.dirStreams k = w.process.libc.dirStreams k) ∧
    ∀ k f', f' ≠ fd → OwnsStream w.process.libc k f' → OwnsStream s' k f' := by
  unfold Sysdeps.releaseDir at hstreams
  cases hfind : findDirStreamByFd w.process.libc fd with
  | none =>
    -- The fd has no stream, so nothing is freed.
    have hnone := not_ownsStream_of_find hfind
    rw [hfind, Option.elim_none] at hstreams
    constructor
    · rintro k f' ⟨hlt, huse, hfrom, howner⟩
      have hk : s'.dirStreams k = w.process.libc.dirStreams k := by rw [hstreams]
      rw [hk] at huse hfrom howner
      refine ⟨?_, ⟨hlt, huse, hfrom, howner⟩, hk⟩
      rintro rfl
      exact hnone k ⟨hlt, huse, hfrom, howner⟩
    · rintro k f' - ⟨hlt, huse, hfrom, howner⟩
      rw [← hstreams] at huse hfrom howner
      exact ⟨hlt, huse, hfrom, howner⟩
  | some slot =>
    have hslot := ownsStream_of_find hfind
    rw [hfind, Option.elim_some, dirStreams_setDir] at hstreams
    -- The freed slot is owned by no fd.
    have hne : ∀ k f', OwnsStream s' k f' → k ≠ slot := by
      rintro k f' howns rfl
      have huse := howns.inUse
      rw [hstreams, Function.update_self] at huse
      cases huse
    constructor
    · intro k f' howns
      have hkslot := hne k f' howns
      have hold := (ownsStream_update hstreams hkslot).1 howns
      refine ⟨?_, hold, by rw [hstreams, Function.update_of_ne hkslot]⟩
      rintro rfl
      exact hkslot (h.unique k slot f' hold hslot)
    · intro k f' hf' howns
      have hkslot : k ≠ slot := by
        rintro rfl
        exact hf' (howns.owner.symm.trans hslot.owner)
      exact (ownsStream_update hstreams hkslot).2 howns

/-- An fd with the same handle, which refers to what it did, refers to what it did. -/
theorem DirInv.refersTo_eq (h : DirInv w) {i : Invocation} {answers : ℕ → Answer}
    {file : Option (List Byte)} {f : ℕ} (hf : f ∈ w.process.opened)
    (hsame : (w.process.step ⟨i, answers⟩).libc.fdTable f = w.process.libc.fdTable f ∧
      w.refs.run file (w.process.trace ⟨i, answers⟩) (w.process.libc.fdTable f) =
        w.refs (w.process.libc.fdTable f)) :
    (w.step (.call i answers file)).refersTo f = w.refersTo f := by
  obtain ⟨htable, hrefs⟩ := hsame
  have hlt := h.consistent.opened_lt f hf
  unfold DirWorld.refersTo
  rw [handleForFd_of_lt (by omega) (by omega), handleForFd_of_lt (by omega) (by omega),
    Int.toNat_natCast]
  show w.refs.run file _ ((w.process.step ⟨i, answers⟩).libc.fdTable f) = _
  rw [htable, hrefs]

/-- The same streams are owned by the same fds. -/
theorem ownsStream_congr {s s' : Libc} (h : s'.dirStreams = s.dirStreams) (k : ℕ) (fd : ℤ) :
    OwnsStream s' k fd ↔ OwnsStream s k fd := by
  constructor
  · rintro ⟨hlt, huse, hfrom, howner⟩
    rw [h] at huse hfrom howner
    exact ⟨hlt, huse, hfrom, howner⟩
  · rintro ⟨hlt, huse, hfrom, howner⟩
    rw [← h] at huse hfrom howner
    exact ⟨hlt, huse, hfrom, howner⟩

/-- A call that binds an fd without a stream keeps the invariant. -/
theorem DirInv.call_binds (h : DirInv w) {i : Invocation} {answers : ℕ → Answer}
    {file : Option (List Byte)} {fd : ℕ} (hok : w.process.result ⟨i, answers⟩ = .ok [fd])
    (hi : ∀ fd', i ≠ .close fd')
    (howned : Owned [] (w.step (.call i answers file)).process.live
      (w.step (.call i answers file)).process.libc.fdTable)
    (hconsistent : Consistent (w.step (.call i answers file)).process.libc.fdTable
      (w.step (.call i answers file)).process.opened)
    (hstreams : (w.process.step ⟨i, answers⟩).libc.dirStreams = w.process.libc.dirStreams)
    (hunread : fd ∉ w.process.opened ∨ w.reading fd = .unread)
    (hothers : ∀ f ∈ w.process.opened, f ≠ fd →
      (w.step (.call i answers file)).refersTo f = w.refersTo f) :
    DirInv (w.step (.call i answers file)) := by
  have hreading : (w.step (.call i answers file)).reading =
      fun f => if f ∈ [fd] then .unread else w.reading f := by
    show rebound w.reading i (w.process.result ⟨i, answers⟩) = _
    rw [hok]
    cases i with
    | close fd' => exact absurd rfl (hi fd')
    | _ => rfl
  have hopened : (w.process.step ⟨i, answers⟩).opened = w.process.opened ∪ {f | f ∈ [fd]} := by
    show openedAfter w.process.opened i (w.process.result ⟨i, answers⟩) = _
    rw [hok, openedAfter_ok hi]
  have hmem : ∀ f : ℕ, (f : ℤ) ≠ fd → f ∉ [fd] :=
    fun f hne hf => hne (congrArg Int.ofNat (List.mem_singleton.1 hf))
  refine h.of_others (w.step (.call i answers file)) fd howned hconsistent rfl ?_ ?_ ?_ ?_ ?_
  · intro k f' hk
    have hold := (ownsStream_congr hstreams k f').1 hk
    refine ⟨?_, hold, congrFun hstreams k⟩
    rintro rfl
    exact h.not_ownsStream hunread k hold
  · exact fun k f' _ hk => (ownsStream_congr hstreams k f').2 hk
  · intro f hne
    show f ∈ (w.process.step ⟨i, answers⟩).opened ↔ _
    rw [hopened]
    exact or_iff_left (hmem f hne)
  · intro f hf hne
    refine ⟨hothers f hf fun heq => hne (congrArg Int.ofNat heq), ?_⟩
    rw [hreading]
    exact if_neg (hmem f hne)
  · intro f heq
    obtain rfl := Int.ofNat.inj heq
    rw [hreading]
    exact if_pos (List.mem_singleton_self f)

/-- A `Close` frees the fd's stream and keeps the invariant. -/
theorem DirInv.call_closes (h : DirInv w) {answers : ℕ → Answer} {file : Option (List Byte)}
    {fd : ℤ} {fds : List ℕ} (hok : w.process.result ⟨.close fd, answers⟩ = .ok fds)
    (howned : Owned [] (w.step (.call (.close fd) answers file)).process.live
      (w.step (.call (.close fd) answers file)).process.libc.fdTable)
    (hconsistent : Consistent (w.step (.call (.close fd) answers file)).process.libc.fdTable
      (w.step (.call (.close fd) answers file)).process.opened)
    (hstreams : (w.process.step ⟨.close fd, answers⟩).libc.dirStreams =
      (Sysdeps.releaseDir fd w.process.libc).dirStreams)
    (hothers : ∀ f ∈ w.process.opened, (f : ℤ) ≠ fd →
      (w.step (.call (.close fd) answers file)).refersTo f = w.refersTo f) :
    DirInv (w.step (.call (.close fd) answers file)) := by
  obtain ⟨hback, hforth⟩ := h.releaseDir hstreams
  have hreading : (w.step (.call (.close fd) answers file)).reading =
      fun f : ℕ => if (f : ℤ) = fd then .unread else w.reading f := by
    show rebound w.reading (.close fd) (w.process.result ⟨.close fd, answers⟩) = _
    rw [hok]
    rfl
  refine h.of_others (w.step (.call (.close fd) answers file)) fd howned hconsistent rfl hback
    hforth ?_ ?_ ?_
  · intro f hne
    show f ∈ openedAfter w.process.opened (.close fd) (w.process.result ⟨.close fd, answers⟩) ↔ _
    rw [hok]
    exact and_iff_left fun heq => absurd heq hne
  · intro f hf hne
    refine ⟨hothers f hf hne, ?_⟩
    rw [hreading]
    exact if_neg hne
  · intro f heq
    rw [hreading]
    exact if_pos heq

/-- A call keeps the invariant. -/
theorem DirInv.call (h : DirInv w) {i : Invocation} {answers : ℕ → Answer}
    {file : Option (List Byte)} (hd : DirDomain w (.call i answers file))
    (hp : DirProvided w (.call i answers file)) : DirInv (w.step (.call i answers file)) := by
  obtain ⟨hi, hlegal, -, fds, hok⟩ := hd
  have hrun := event_runs w.process ⟨i, answers⟩
  have hout := event_outcome w.process ⟨i, answers⟩
  have hconsistent := h.consistent.outcome hout hlegal
  rw [hok] at hout hrun
  have hclose : ∀ fd, i = .close fd → ∃ f ∈ w.process.opened, fd = f := by
    rintro fd rfl
    exact hp
  obtain ⟨howned, hcases⟩ :=
    others_of_outcome h.owned h.consistent hout hi hlegal hclose w.refs file
  have hstreams := dirStreams_of_dirCall hi hrun
  rcases hcases with ⟨fd, rfl, hi', hlt, hfd, hothers⟩ | ⟨fd, rfl, hothers⟩
  · have hsame : (w.process.step ⟨i, answers⟩).libc.dirStreams = w.process.libc.dirStreams := by
      cases i with
      | close fd' => exact absurd rfl (hi' fd')
      | _ => exact hstreams
    -- A fresh fd is unread, and so is one that a `Dup2` may go onto.
    have hunread : fd ∉ w.process.opened ∨ w.reading fd = .unread := by
      refine hfd.imp_right ?_
      rintro ⟨fd', rfl⟩
      exact hp
    exact h.call_binds hok hi' howned hconsistent hsame hunread
      fun f hf hne => h.refersTo_eq hf (hothers f hf hne)
  · -- The fd that is closed is no directory's handle.
    have hopen : fd < kDirHandleBase := by
      obtain ⟨f, hf, rfl⟩ := hclose fd rfl
      exact h.lt_base hf
    exact h.call_closes hok howned hconsistent (hstreams hopen)
      fun f hf hne => h.refersTo_eq hf (hothers f hf hne)

/-- Every step that meets the conditions keeps the invariant. -/
theorem DirInv.step (h : DirInv w) {e : DirEvent} (hd : DirDomain w e) (hp : DirProvided w e) :
    DirInv (w.step e) := by
  cases e with
  | call i answers file => exact h.call hd hp
  | readEntries fd maxSize answers => exact h.read hd hp
  | change path entries => exact h.change hd

/-- The streams of a world in order are current. -/
theorem DirInv.streamsCurrent (h : DirInv w) : StreamsCurrent w := by
  intro slot hlt huse hfrom
  obtain ⟨f, hf, heq, hstream⟩ := h.stream slot _ ⟨hlt, huse, hfrom, rfl⟩
  rw [heq]
  exact hstream.refers

end

/-- Over every run of opens, dups, closes and reads of directories of any size, in any order, with
honest answers and no failing call: as long as no `Dup2` goes onto an fd that has been read since it
was bound, no `Close` to an fd that is not open, and every directory that is read fits a snapshot,
each read yields what it should and every stream in use is current. -/
theorem readsDirs_of_provided (refs : Refs) (contents : List Byte → List Dirent)
    (es : List DirEvent) (hd : Along DirWorld.step DirDomain (.start refs contents) es)
    (hp : Along DirWorld.step DirProvided (.start refs contents) es) :
    Along DirWorld.step ReadsDirs (.start refs contents) es := by
  apply Along.of_invariant DirInv (P := fun w e => DirDomain w e ∧ DirProvided w e) ?_ ?_
    (dirInv_start refs contents) (along_and.2 ⟨hd, hp⟩)
  · intro w e h he
    exact h.step he.1 he.2
  · intro w e h he
    refine ⟨?_, (h.step he.1 he.2).streamsCurrent⟩
    cases e with
    | readEntries fd maxSize answers => exact h.entriesExact he.1 he.2
    | call i answers file => trivial
    | change path entries => trivial

/-! ### Two directories -/

/-- Memory with one entry, named `a`. -/
def oneEntry : Block := fun i => if i = 0 then 97#8 else 0#8

/-- The directory `A`. -/
def dirA : List Byte := [65#8]
/-- The directory `B`. -/
def dirB : List Byte := [66#8]

/-- The first directory has an entry, the other is empty. -/
def someContents (path : List Byte) : List Dirent :=
  if path = dirA then [direntAt oneEntry 0] else []

/-- A process at its start among the two directories. -/
def someWorld : DirWorld := .start (fun _ => none) someContents

/-- Reports a path. -/
def pathAnswer (path : List Byte) : Answer := ⟨path.length, [], fun i => path.getD i 0#8, 0, []⟩

/-- Lists a directory. -/
def listAnswer (entries : ℕ) : Answer := ⟨entries, [], oneEntry, 0, []⟩

/-- Opens a directory. -/
def opensDir (path : List Byte) (handle : ℤ) : DirEvent :=
  .call (.open path 0 0) (fun _ => returns handle) (some path)

/-- A read whose kernel calls, if it makes any, report the path and list the entries. -/
def readsDir (fd : ℕ) (path : List Byte) (entries : ℕ) : DirEvent :=
  .readEntries fd 280 fun k => if k = 0 then pathAnswer path else listAnswer entries

/-- An open may return any fresh handle. -/
theorem allowed_open {live : Live} {args : List ℤ} {data : List (List Byte)} {handle : ℤ}
    (hfresh : Fresh live handle) :
    Allowed live (kcallWith .open [] args data) (returns handle) := by
  have hpos := hfresh.2
  have hg : granted (kcallWith .open [] args data) (returns handle) = [handle] :=
    granted_of_opener rfl (returns_ok (by omega))
  refine ⟨?_, ?_, fun _ => trivial⟩
  · intro h hmem
    rw [hg] at hmem
    obtain rfl := List.mem_singleton.1 hmem
    exact hfresh
  · rw [hg]
    exact List.nodup_cons.2 ⟨List.not_mem_nil, List.nodup_nil⟩

/-- The first fresh handle is 3. -/
theorem fresh_three : Fresh initialLive 3 := by
  refine ⟨?_, by decide⟩
  rintro (h | h | h) <;> exact absurd h (by decide)

/-- The calls of a first read report the path of the directory. -/
theorem honest_read {refs : Refs} {handle : ℤ} {path : List Byte} {n : ℕ}
    (h : refs handle = some path) :
    Honest refs [(kcall .fdPath [handle] [256], pathAnswer path),
      (readdirCall path, listAnswer n)] := by
  intro step hstep hnumber hok handle' hhandle
  rcases List.mem_cons.1 hstep with rfl | hstep
  · cases hhandle
    refine ⟨path, h, rfl, ?_⟩
    intro i hi _
    show path[i]? = some (path.getD i 0#8)
    rw [List.getD_eq_getElem?_getD, List.getElem?_eq_getElem hi, Option.getD_some]
  · rw [List.mem_singleton.1 hstep] at hnumber
    cases hnumber

/-- A call that does not ask for a path reports none. -/
theorem honest_single {refs : Refs} {c : KCall} {a : Answer} (h : c.number ≠ .fdPath) :
    Honest refs [(c, a)] := by
  intro step hstep hnumber
  rw [List.mem_singleton.1 hstep] at hnumber
  exact absurd hnumber h

/-- A directory with one entry is opened, read to its end and closed. -/
theorem readsDirs_one : Along DirWorld.step ReadsDirs someWorld
    [opensDir dirA 3, readsDir 3 dirA 1, readsDir 3 dirA 1,
      .call (.close 3) (fun _ => returns 0) none] := by
  have hlist : HonestReaddir someContents
      [(kcall .fdPath [3] [256], pathAnswer dirA), (readdirCall dirA, listAnswer 1)] := by
    intro step hstep hnumber _ path hpath
    rcases List.mem_cons.1 hstep with rfl | hstep
    · cases hnumber
    · obtain rfl := List.mem_singleton.1 hstep
      cases hpath
      refine ⟨1, rfl, by decide, fun _ => rfl, ?_⟩
      intro i hi
      obtain rfl : i = 0 := Nat.lt_one_iff.1 hi
      rfl
  have hnil : ∀ refs : Refs, Honest refs [] := fun refs => honest_nil refs
  apply readsDirs_of_provided
  · refine ⟨⟨trivial, ⟨allowed_open fresh_three, trivial⟩, ?_, [3], rfl⟩,
      ⟨Or.inr (List.mem_singleton_self 3), Nat.le_refl _, honest_read rfl, hlist, _, rfl⟩,
      ⟨Or.inr (List.mem_singleton_self 3), Nat.le_refl _, hnil _,
        fun _ h => absurd h List.not_mem_nil, _, rfl⟩,
      ⟨trivial, ⟨?_, trivial⟩, ?_, [], rfl⟩, trivial⟩
    · exact honest_single Syscall.noConfusion
    · exact ⟨fun _ h => absurd h List.not_mem_nil, List.nodup_nil, fun _ => trivial⟩
    · exact honest_single Syscall.noConfusion
  · refine ⟨trivial, ?_, ?_, ⟨3, Or.inr (List.mem_singleton_self 3), rfl⟩, trivial⟩
    · intro _ path hpath
      cases hpath
      decide
    · intro hunread
      cases hunread

/-- An empty directory is read as fd 4, and then fd 3, a directory with an entry, is duplicated onto
fd 4: reading it reports the end at once, from the snapshot of the other directory. -/
theorem dup2_keepsStream : ¬∀ refs contents es,
    Along DirWorld.step DirDomain (.start refs contents) es →
    Along DirWorld.step ReadsDirs (.start refs contents) es := by
  intro h
  have hreads := h (fun _ => none) someContents
    [opensDir dirA 3, opensDir dirB 4, readsDir 4 dirB 0,
      .call (.dup2 3 4) (fun _ => returns 4) none, readsDir 4 dirA 1] ?_
  · -- The last read yields nothing, and there is an entry.
    obtain ⟨path, hpath, -, hend⟩ :=
      hreads.2.2.2.2.1.1 [] rfl [] (Or.inl ⟨rfl, rfl⟩)
    cases hpath
    have hnil : someContents dirA = [] := eq_nil_of_records (hend rfl).symm
    exact absurd hnil (List.cons_ne_nil _ _)
  · have hfour : Fresh (initialLive.after (kcallWith .open [] [0, 0] [dirA]) (returns 3)) 4 := by
      rw [after_of_not_close _ fun _ => ne_of_opener rfl, granted_of_opener rfl (returns_ok (by decide))]
      refine ⟨?_, by decide⟩
      rintro ((h | h | h) | h)
      · exact absurd h (by decide)
      · exact absurd h (by decide)
      · exact absurd h (by decide)
      · exact absurd (List.mem_singleton.1 h) (by decide)
    have hlist : HonestReaddir someContents
        [(kcall .fdPath [4] [256], pathAnswer dirB), (readdirCall dirB, listAnswer 0)] := by
      intro step hstep hnumber _ path hpath
      rcases List.mem_cons.1 hstep with rfl | hstep
      · cases hnumber
      · obtain rfl := List.mem_singleton.1 hstep
        cases hpath
        exact ⟨0, rfl, by decide, fun _ => rfl, fun i hi => absurd hi (Nat.not_lt_zero i)⟩
    refine ⟨⟨trivial, ⟨allowed_open fresh_three, trivial⟩, ?_, [3], rfl⟩,
      ⟨trivial, ⟨allowed_open hfour, trivial⟩, ?_, [4], rfl⟩,
      ⟨Or.inr (List.mem_singleton_self 4), Nat.le_refl _, honest_read rfl, hlist, _, rfl⟩,
      ⟨trivial, ⟨?_, trivial⟩, ?_, [4], rfl⟩,
      ⟨Or.inr (List.mem_singleton_self 4), Nat.le_refl _, honest_nil _,
        fun _ h => absurd h List.not_mem_nil, _, rfl⟩, trivial⟩
    · exact honest_single Syscall.noConfusion
    · exact honest_single Syscall.noConfusion
    · exact ⟨fun _ h => absurd h List.not_mem_nil, List.nodup_nil, fun _ => ⟨fun _ => rfl,
        fun _ => Or.inl rfl⟩⟩
    · exact honest_single Syscall.noConfusion

end IUserApps.Sysdeps
