import IUserApps.Sysdeps.Stale
import IUserApps.Sysdeps.Streams

/-!
# The paths of the `*at` calls

A `*at` call resolves its path with `at_resolve`, which joins it to the path of the directory fd in a
buffer of 512 bytes, the directory's path taken from one of 256. What does not fit is left out
without an error, and more of the directory's path is read than its buffer holds when the kernel
reports a longer one. `OpenDir` likewise keeps the first 255 bytes of its path.

`atPaths_iff` says when the calls work on the file that is named: exactly when the paths fit. What
the kernel knows of the open directories is a parameter, and an answer of its fd-to-path call reports
it when it gives the path's length and the part of the path for which there is room.
-/

namespace IUserApps.Sysdeps

open Interact

/-- The size of `dir` in `at_resolve`. -/
def kDirBuffer : ℕ := 256

/-- The byte between the components of a path. -/
def slash : Byte := 47#8

/-! ## What is named -/

section
variable (dirs : ℤ → Option (List Byte)) (s : Libc) (dirfd : ℤ) (path : Option (List Byte))

/-- The path is taken as it is. -/
def Direct (path : List Byte) : Prop := path.head? = some slash ∨ dirfd = kAtFdCwd

instance (path : List Byte) : Decidable (Direct dirfd path) :=
  inferInstanceAs (Decidable (_ ∨ _))

/-- A path below a directory. -/
def joinPath (dir path : List Byte) : List Byte :=
  dir ++ (if dir.getLast? = some slash then [] else [slash]) ++ path

/-- The file that a `*at` call names: the path, below the directory of the fd when it is relative. -/
def atNamed : Option (List Byte) :=
  path.bind fun path =>
    if Direct dirfd path then some path
    else if handleForFd s.fdTable dirfd < 0 then none
    else (dirs (handleForFd s.fdTable dirfd)).map fun dir => joinPath dir path

/-- The path is absolute, or the directory's path fits its buffer and the joined path the other. -/
def AtFits : Prop :=
  ∀ p dir, path = some p → ¬Direct dirfd p → ¬handleForFd s.fdTable dirfd < 0 →
    dirs (handleForFd s.fdTable dirfd) = some dir →
    dir.length ≤ kDirBuffer ∧ (joinPath dir p).length < kAtBuffer

end

/-- An answer of the fd-to-path call reports a path: its length, and what fits of it. -/
def Reports (a : Answer) (dir : List Byte) : Prop :=
  a.ret = dir.length ∧ ∀ i < dir.length, i < kDirBuffer → dir[i]? = some (a.block i)

/-- The fd-to-path calls of a trace that succeed report what the kernel knows. -/
def Honest (dirs : ℤ → Option (List Byte)) (trace : List (KCall × Answer)) : Prop :=
  ∀ step ∈ trace, step.1.number = .fdPath → step.2.ok = true → ∀ handle, step.1.handles = [handle] →
    ∃ dir, dirs handle = some dir ∧ Reports step.2 dir

/-- Without a call nothing wrong is reported. -/
theorem honest_nil (dirs : ℤ → Option (List Byte)) : Honest dirs [] :=
  fun _ h => absurd h List.not_mem_nil

/-- Traces in sequence report what the kernel knows if both do. -/
theorem honest_append {dirs : ℤ → Option (List Byte)} {t t' : List (KCall × Answer)} :
    Honest dirs (t ++ t') ↔ Honest dirs t ∧ Honest dirs t' := List.forall_mem_append

/-! ## The copy loops -/

/-- The first loop of `at_resolve`: what it appends to `out`, and the places of `dir` that it reads.
Every pass fills one byte of `out`, so its size bounds the passes. -/
def copyDir (outsz : ℕ) (n : ℤ) (dir : Block) : ℕ → ℕ → List Byte → List Byte × List ℕ
  | 0, _, out => (out, [])
  | fuel + 1, i, out =>
    if (i : ℤ) < n ∧ out.length + 1 < outsz then
      let (copied, reads) := copyDir outsz n dir fuel (i + 1) (out ++ [dir i])
      (copied, i :: reads)
    else (out, [])

/-- The loop takes the bytes of the directory's path in order until one or the other is at its end. -/
theorem copyDir_eq (outsz : ℕ) (n : ℤ) (dir : Block) (fuel i : ℕ) (out : List Byte)
    (hlen : out.length = i) (hfuel : outsz ≤ i + fuel) :
    copyDir outsz n dir fuel i out =
      (out ++ (List.range' i (min n.toNat (outsz - 1) - i)).map dir,
        List.range' i (min n.toNat (outsz - 1) - i)) := by
  induction fuel generalizing i out with
  | zero =>
    have hzero : min n.toNat (outsz - 1) - i = 0 := by omega
    unfold copyDir
    rw [hzero, List.range'_zero, List.map_nil, List.append_nil]
  | succ fuel ih =>
    unfold copyDir
    split
    · next h =>
      obtain ⟨hn, hroom⟩ := h
      have hsucc : min n.toNat (outsz - 1) - i = min n.toNat (outsz - 1) - (i + 1) + 1 := by omega
      rw [ih (i + 1) (out ++ [dir i]) (by rw [List.length_append, hlen]; rfl) (by omega), hsucc,
        List.range'_succ, List.map_cons, List.append_assoc, List.singleton_append]
    · next h =>
      have hzero : min n.toNat (outsz - 1) - i = 0 := by omega
      rw [hzero, List.range'_zero, List.map_nil, List.append_nil]

/-- The copy loop on an answer. -/
def copied (a : Answer) : List Byte × List ℕ := copyDir kAtBuffer a.ret a.block kAtBuffer 0 []

/-- The places of `dir` that it reads. -/
def dirReads (a : Answer) : List ℕ := (copied a).2

/-- The directory's path as the answer has it, of any length. -/
def answered (a : Answer) : List Byte := (List.range a.ret.toNat).map a.block

/-- The copy is the reported path as far as the buffer goes, and reads that many places. -/
theorem copied_eq (a : Answer) : copied a = (appendTo kAtBuffer [] (answered a),
    List.range (min a.ret.toNat (kAtBuffer - 1))) := by
  have h := copyDir_eq kAtBuffer a.ret a.block kAtBuffer 0 [] rfl (Nat.le_add_left _ _)
  rw [Nat.sub_zero, List.nil_append, ← List.range_eq_range'] at h
  unfold copied appendTo answered
  rw [h, List.nil_append, List.length_nil, Nat.sub_zero, ← List.map_take, List.take_range,
    Nat.min_comm]

/-- What `at_resolve` leaves in `out`. -/
def composed (a : Answer) (path : List Byte) : List Byte :=
  let out := (copied a).1
  let out := if out.getLast? = some slash then out else appendTo kAtBuffer out [slash]
  appendTo kAtBuffer out path

section
variable {a : Answer} {dir path out bytes : List Byte}

/-- Bytes that fit are appended whole. -/
theorem appendTo_of_lt {size : ℕ} (h : out.length + bytes.length < size) :
    appendTo size out bytes = out ++ bytes := by
  unfold appendTo
  rw [List.take_of_length_le (by omega)]

/-- What is appended fits. -/
theorem length_appendTo_lt {size : ℕ} (h : out.length < size) :
    (appendTo size out bytes).length < size := by
  unfold appendTo
  rw [List.length_append, List.length_take]
  omega

/-- The answer that reports a path has it in its block, where the block holds it whole. -/
theorem answered_eq (h : Reports a dir) (hfits : dir.length ≤ kDirBuffer) : answered a = dir := by
  obtain ⟨hret, hblock⟩ := h
  have hn : a.ret.toNat = dir.length := by omega
  unfold answered
  rw [hn]
  apply List.ext_getElem?
  intro i
  rcases Nat.lt_or_ge i dir.length with hi | hi
  · rw [hblock i hi (Nat.lt_of_lt_of_le hi hfits), List.getElem?_map, List.getElem?_range hi,
      Option.map_some]
  · rw [List.getElem?_eq_none hi, List.getElem?_eq_none (by simpa using hi)]

/-- The join, as it is composed. -/
theorem composed_eq (h : answered a = dir) (hfits : (joinPath dir path).length < kAtBuffer) :
    composed a path = joinPath dir path := by
  unfold joinPath at hfits ⊢
  rw [List.length_append, List.length_append] at hfits
  have hdir : (copied a).1 = dir := by
    rw [copied_eq, h, appendTo_of_lt (by rw [List.length_nil]; omega), List.nil_append]
  have hslash : (if dir.getLast? = some slash then dir else appendTo kAtBuffer dir [slash]) =
      dir ++ (if dir.getLast? = some slash then [] else [slash]) := by
    split
    · rw [List.append_nil]
    · next hlast =>
      rw [if_neg hlast] at hfits
      exact appendTo_of_lt (by omega)
  unfold composed
  simp only [hdir, hslash]
  exact appendTo_of_lt (by rw [List.length_append]; exact hfits)

/-- The buffer never overflows. -/
theorem length_composed_lt (a : Answer) (path : List Byte) :
    (composed a path).length < kAtBuffer := by
  have hdir : (copied a).1.length < kAtBuffer := by
    rw [copied_eq]
    exact length_appendTo_lt (by decide)
  apply length_appendTo_lt
  split
  · exact hdir
  · exact length_appendTo_lt hdir

/-- The join starts with what the copy loop took. -/
theorem composed_extends (a : Answer) (path : List Byte) : (copied a).1 <+: composed a path := by
  unfold composed appendTo
  dsimp only
  split
  · exact List.prefix_append _ _
  · rw [List.append_assoc]
    exact List.prefix_append _ _

/-- The kernel's answer for a path whose bytes beyond the buffer's end are others. -/
def reporting (dir : List Byte) : Answer where
  ret := dir.length
  handles := []
  block := fun i => if i < kDirBuffer then dir.getD i 0#8 else dir.getD i 0#8 + 1#8
  flags := 0
  name := []

/-- The answer reports the path. -/
theorem reporting_reports (dir : List Byte) : Reports (reporting dir) dir := by
  refine ⟨rfl, ?_⟩
  intro i hi hbuffer
  unfold reporting
  dsimp only
  rw [if_pos hbuffer, List.getD_eq_getElem?_getD, List.getElem?_eq_getElem hi, Option.getD_some]

/-- The answer is a success. -/
theorem reporting_ok (dir : List Byte) : (reporting dir).ok = true := by
  rw [Answer.ok_iff]
  unfold scError reporting
  rw [if_neg (by dsimp only; omega)]

/-- With that answer the join is right only when everything fits. -/
theorem fits_of_composed (h : composed (reporting dir) path = joinPath dir path) :
    dir.length ≤ kDirBuffer ∧ (joinPath dir path).length < kAtBuffer := by
  refine ⟨?_, h ▸ length_composed_lt _ _⟩
  by_contra hlong
  -- The first byte beyond the buffer is another one in the join.
  have hlt : kDirBuffer < dir.length := Nat.lt_of_not_le hlong
  have hcopied : (copied (reporting dir)).1[kDirBuffer]? = some (dir[kDirBuffer] + 1#8) := by
    have hret : (reporting dir).ret.toNat = dir.length := rfl
    have hblock : (reporting dir).block kDirBuffer = dir[kDirBuffer] + 1#8 := by
      unfold reporting
      dsimp only
      rw [if_neg (Nat.lt_irrefl _), List.getD_eq_getElem?_getD, List.getElem?_eq_getElem hlt,
        Option.getD_some]
    have hroom : kDirBuffer < kAtBuffer - 1 := by decide
    rw [copied_eq]
    unfold appendTo answered
    rw [hret, List.nil_append, List.length_nil, Nat.sub_zero, List.getElem?_take_of_lt hroom,
      List.getElem?_map, List.getElem?_range hlt, Option.map_some, hblock]
  obtain ⟨rest, hrest⟩ := composed_extends (reporting dir) path
  obtain ⟨hmem, hget⟩ := List.getElem?_eq_some_iff.1 hcopied
  have hjoin : (joinPath dir path)[kDirBuffer]? = some dir[kDirBuffer] := by
    unfold joinPath
    rw [List.append_assoc, List.getElem?_append_left hlt, List.getElem?_eq_getElem hlt]
  rw [← h, ← hrest, List.getElem?_append_left hmem, hcopied] at hjoin
  have hbyte := Option.some.inj hjoin
  generalize dir[kDirBuffer] = b at hbyte
  revert b
  decide

end

/-! ## The calls that a sysdep makes -/

/-- Every kernel call that a sysdep can make has a property. -/
def CallsOnly {α : Type} (P : KCall → Prop) (m : Sys α) : Prop :=
  ∀ s trace r s', Act.Runs m s trace r s' → ∀ step ∈ trace, P step.1

section
variable {α β : Type} {P : KCall → Prop}

/-- A returned value makes no call. -/
theorem callsOnly_pure (x : α) : CallsOnly P (pure x : Sys α) := by
  intro s trace r s' h
  obtain ⟨rfl, -, -⟩ := Act.runs_pure.1 h
  exact fun _ hstep => absurd hstep List.not_mem_nil

/-- A raised error makes no call. -/
theorem callsOnly_throw (e : Errno) : CallsOnly P (Act.throw e : Sys α) := by
  intro s trace r s' h
  obtain ⟨rfl, -, -⟩ := Act.runs_throw.1 h
  exact fun _ hstep => absurd hstep List.not_mem_nil

/-- A call that has the property. -/
theorem callsOnly_ask {c : KCall} (h : P c) : CallsOnly P (Act.ask c : Sys Answer) := by
  intro s trace r s' hrun step hstep
  obtain ⟨a, rfl, -, -⟩ := Act.runs_ask.1 hrun
  rw [List.mem_singleton.1 hstep]
  exact h

/-- Sysdeps in sequence make the calls of both. -/
theorem callsOnly_bind {m : Sys α} {f : α → Sys β} (hm : CallsOnly P m)
    (hf : ∀ x, CallsOnly P (f x)) : CallsOnly P (m >>= f) := by
  intro s trace r s' h step hstep
  rcases Act.runs_bind.1 h with ⟨e, h, -⟩ | ⟨x, mid, first, last, h1, h2, rfl⟩
  · exact hm _ _ _ _ h step hstep
  · rcases List.mem_append.1 hstep with hs | hs
    · exact hm _ _ _ _ h1 step hs
    · exact hf x _ _ _ _ h2 step hs

/-- A call that has the property, and may fail. -/
theorem callsOnly_syscall {c : KCall} (h : P c) : CallsOnly P (syscall c) := by
  apply callsOnly_bind (callsOnly_ask h)
  intro a
  split
  · exact callsOnly_throw _
  · exact callsOnly_pure _

/-- Looking up a handle makes no call. -/
theorem callsOnly_withHandle {fd : ℤ} {next : ℤ → Sys α} (h : ∀ handle, CallsOnly P (next handle)) :
    CallsOnly P (withHandle fd next) := by
  intro s trace r s' hrun
  rw [runs_withHandle] at hrun
  split at hrun
  · obtain ⟨rfl, -, -⟩ := hrun
    exact fun _ hstep => absurd hstep List.not_mem_nil
  · exact h _ _ _ _ _ hrun

/-- Registering a handle makes no call but the close of one that has no room. -/
theorem callsOnly_newFd {handle min : ℤ} (h : P (kcall .close [handle] [])) :
    CallsOnly P (newFd handle min) := by
  intro s trace r s' hrun step hstep
  rcases runs_newFd.1 hrun with ⟨fd, -, rfl, -, -⟩ | ⟨-, a, rfl, -, -⟩
  · exact absurd hstep List.not_mem_nil
  · rw [List.mem_singleton.1 hstep]
    exact h

/-- Resolving a path gives none to the kernel. -/
theorem callsOnly_atResolve (dirfd : ℤ) (path : Option (List Byte)) (outsz : ℕ) :
    CallsOnly (fun c => c.data = []) (atResolve dirfd path outsz) := by
  unfold atResolve
  cases path with
  | none => exact callsOnly_throw _
  | some path =>
    dsimp only
    split
    · exact callsOnly_pure _
    · apply callsOnly_withHandle
      intro handle
      exact callsOnly_bind (callsOnly_syscall rfl) fun a => callsOnly_pure _

end

/-! ## One path -/

section
variable {dirs : ℤ → Option (List Byte)} {s s' : Libc} {dirfd : ℤ} {path : List Byte}
  {trace : List (KCall × Answer)} {r : Except Errno (List Byte)}

/-- A path that is taken as it is needs no call. -/
theorem runs_atResolve_direct (h : Direct dirfd path) :
    Act.Runs (atResolve dirfd (some path) kAtBuffer) s trace r s' ↔
      trace = [] ∧ r = .ok path ∧ s' = s := by
  have hcond : path.head? = some 47#8 ∨ dirfd = kAtFdCwd := h
  unfold atResolve
  dsimp only
  rw [if_pos hcond]
  exact Act.runs_pure

/-- A relative path asks the kernel for the path of the fd. -/
theorem runs_atResolve_relative (h : ¬Direct dirfd path) :
    Act.Runs (atResolve dirfd (some path) kAtBuffer) s trace r s' ↔
      if handleForFd s.fdTable dirfd < 0 then trace = [] ∧ r = .error EBADF ∧ s' = s
      else ∃ a, trace = [(kcall .fdPath [handleForFd s.fdTable dirfd] [kDirBuffer], a)] ∧ s' = s ∧
        ((a.ok = false ∧ r = .error (scError a.ret)) ∨
          (a.ok = true ∧ r = .ok (composed a path))) := by
  have hcond : ¬(path.head? = some 47#8 ∨ dirfd = kAtFdCwd) := h
  -- The kernel's path, a slash if it has none, and the path.
  have hcomposed : ∀ a : Answer, (
      let out := appendTo kAtBuffer [] ((List.range a.ret.toNat).map a.block)
      let out := if out.getLast? = some 47#8 then out else appendTo kAtBuffer out [47#8]
      appendTo kAtBuffer out path) = composed a path := by
    intro a
    unfold composed
    rw [copied_eq]
    rfl
  unfold atResolve
  dsimp only
  rw [if_neg hcond, runs_withHandle]
  split
  · exact Iff.rfl
  · rw [runs_syscall_bind]
    constructor
    · rintro ⟨a, rest, rfl, ⟨hok, rfl, rfl, rfl⟩ | ⟨hok, hrest⟩⟩
      · exact ⟨a, rfl, rfl, Or.inl ⟨hok, rfl⟩⟩
      · obtain ⟨rfl, rfl, rfl⟩ := Act.runs_pure.1 hrest
        exact ⟨a, rfl, rfl, Or.inr ⟨hok, congrArg Except.ok (hcomposed a)⟩⟩
    · rintro ⟨a, rfl, rfl, ⟨hok, rfl⟩ | ⟨hok, rfl⟩⟩
      · exact ⟨a, [], rfl, Or.inl ⟨hok, rfl, rfl, rfl⟩⟩
      · exact ⟨a, [], rfl, Or.inr ⟨hok, Act.runs_pure.2
          ⟨rfl, congrArg Except.ok (hcomposed a).symm, rfl⟩⟩⟩

/-- A missing path is refused without a call. -/
theorem runs_atResolve_none :
    Act.Runs (atResolve dirfd none kAtBuffer) s trace r s' ↔
      trace = [] ∧ r = .error EINVAL ∧ s' = s := Act.runs_throw

/-- A direct path names itself. -/
theorem atNamed_direct (h : Direct dirfd path) :
    atNamed dirs s dirfd (some path) = some path := by
  unfold atNamed
  rw [Option.bind_some, if_pos h]

/-- A relative one names a file below the directory of the fd. -/
theorem atNamed_relative (h : ¬Direct dirfd path) {dir : List Byte}
    (hh : ¬handleForFd s.fdTable dirfd < 0)
    (hdir : dirs (handleForFd s.fdTable dirfd) = some dir) :
    atNamed dirs s dirfd (some path) = some (joinPath dir path) := by
  unfold atNamed
  rw [Option.bind_some, if_neg h, if_neg hh, hdir, Option.map_some]

/-- A run that resolves a path leaves the state, and with honest answers the path names a file, which
is the result if everything fits. -/
theorem atResolve_ok {path : Option (List Byte)} {p : List Byte}
    (hrun : Act.Runs (atResolve dirfd path kAtBuffer) s trace (.ok p) s') (hh : Honest dirs trace) :
    s' = s ∧ (atNamed dirs s dirfd path).isSome ∧
      (AtFits dirs s dirfd path → atNamed dirs s dirfd path = some p) := by
  cases path with
  | none =>
    obtain ⟨-, habs, -⟩ := runs_atResolve_none.1 hrun
    cases habs
  | some path =>
    by_cases h : Direct dirfd path
    · obtain ⟨rfl, hp, rfl⟩ := (runs_atResolve_direct h).1 hrun
      cases hp
      refine ⟨rfl, ?_, fun _ => atNamed_direct h⟩
      rw [atNamed_direct h]
      rfl
    · -- A relative path: the directory is the one that the kernel has answered.
      rw [runs_atResolve_relative h] at hrun
      split at hrun
      · obtain ⟨-, habs, -⟩ := hrun
        cases habs
      · next hneg =>
        obtain ⟨a, rfl, rfl, ⟨-, habs⟩ | ⟨hok, hp⟩⟩ := hrun
        · cases habs
        · cases hp
          obtain ⟨dir, hdir, hreports⟩ := hh _ List.mem_cons_self rfl hok _ rfl
          have hnamed := atNamed_relative h hneg hdir
          refine ⟨rfl, ?_, ?_⟩
          · rw [hnamed]
            rfl
          · intro hfits
            obtain ⟨hbuffer, hroom⟩ := hfits path dir rfl h hneg hdir
            rw [hnamed, composed_eq (answered_eq hreports hbuffer) hroom]

/-- When the path names a file, there is an honest run that resolves it, and that is right only if
everything fits. -/
theorem atResolve_reporting {path : Option (List Byte)}
    (hnamed : (atNamed dirs s dirfd path).isSome) :
    ∃ trace p, Act.Runs (atResolve dirfd path kAtBuffer) s trace (.ok p) s ∧ Honest dirs trace ∧
      (atNamed dirs s dirfd path = some p → AtFits dirs s dirfd path) := by
  cases path with
  | none => exact absurd hnamed Bool.false_ne_true
  | some path =>
    by_cases h : Direct dirfd path
    · refine ⟨[], path, (runs_atResolve_direct h).2 ⟨rfl, rfl, rfl⟩, honest_nil dirs, ?_⟩
      intro _ p dir hp hrelative
      cases hp
      exact absurd h hrelative
    · unfold atNamed at hnamed
      rw [Option.bind_some, if_neg h] at hnamed
      split at hnamed
      · exact absurd hnamed Bool.false_ne_true
      · next hneg =>
        -- The kernel that reports the directory as it is.
        obtain ⟨dir, hdir⟩ := Option.isSome_iff_exists.1 (by simpa using hnamed)
        refine ⟨[(kcall .fdPath [handleForFd s.fdTable dirfd] [kDirBuffer], reporting dir)],
          composed (reporting dir) path, ?_, ?_, ?_⟩
        · rw [runs_atResolve_relative h, if_neg hneg]
          exact ⟨reporting dir, rfl, rfl, Or.inr ⟨reporting_ok dir, rfl⟩⟩
        · intro step hstep hnumber hok handle hhandle
          rw [List.mem_singleton.1 hstep] at hhandle ⊢
          cases hhandle
          exact ⟨dir, hdir, reporting_reports dir⟩
        · intro heq p dir' hp _ _ hdir'
          cases hp
          rw [hdir] at hdir'
          cases hdir'
          rw [atNamed_relative h hneg hdir] at heq
          exact fits_of_composed (Option.some.inj heq).symm

/-- What `at_resolve` is for: with honest answers, it returns the path that is named or an error, and
reads the directory's path inside its buffer. -/
def ResolvesExactly (dirs : ℤ → Option (List Byte)) (s : Libc) (dirfd : ℤ)
    (path : Option (List Byte)) : Prop :=
  ∀ trace r s', Act.Runs (atResolve dirfd path kAtBuffer) s trace r s' → Honest dirs trace →
    (∀ p, r = .ok p → atNamed dirs s dirfd path = some p) ∧
      ∀ step ∈ trace, step.2.ok = true → ∀ i ∈ dirReads step.2, i < kDirBuffer

/-- It reads inside the buffer when the kernel reports a path that fits it. -/
theorem dirReads_lt {a : Answer} {dir : List Byte} (h : Reports a dir)
    (hfits : dir.length ≤ kDirBuffer) : ∀ i ∈ dirReads a, i < kDirBuffer := by
  intro i hi
  have hret := h.1
  rw [dirReads, copied_eq, List.mem_range] at hi
  omega

/-- `at_resolve` is exact when and only when everything fits. -/
theorem resolvesExactly_iff (dirs : ℤ → Option (List Byte)) (s : Libc) (dirfd : ℤ)
    (path : Option (List Byte)) :
    ResolvesExactly dirs s dirfd path ↔ AtFits dirs s dirfd path := by
  constructor
  · intro h p dir hp hrelative hneg hdir
    subst hp
    have hnamed := atNamed_relative hrelative hneg hdir
    have hsome : (atNamed dirs s dirfd (some p)).isSome := by
      rw [hnamed]
      rfl
    -- Being exact in the run of a kernel that reports the directory forces it to fit.
    obtain ⟨trace, q, hrun, hhonest, hfits⟩ := atResolve_reporting hsome
    exact hfits ((h trace _ s hrun hhonest).1 q rfl) p dir rfl hrelative hneg hdir
  · intro hfits trace r s' hrun hhonest
    refine ⟨?_, ?_⟩
    · rintro p rfl
      exact (atResolve_ok hrun hhonest).2.2 hfits
    · intro step hstep hok
      cases path with
      | none =>
        obtain ⟨rfl, -, -⟩ := runs_atResolve_none.1 hrun
        exact absurd hstep List.not_mem_nil
      | some path =>
        by_cases h : Direct dirfd path
        · obtain ⟨rfl, -, -⟩ := (runs_atResolve_direct h).1 hrun
          exact absurd hstep List.not_mem_nil
        · rw [runs_atResolve_relative h] at hrun
          split at hrun
          · obtain ⟨rfl, -, -⟩ := hrun
            exact absurd hstep List.not_mem_nil
          · next hneg =>
            obtain ⟨a, rfl, -, -⟩ := hrun
            obtain rfl := List.mem_singleton.1 hstep
            obtain ⟨dir, hdir, hreports⟩ := hhonest _ List.mem_cons_self rfl hok _ rfl
            exact dirReads_lt hreports (hfits path dir rfl h hneg hdir).1

end

/-! ## The calls -/

/-- A path with the directory fd that it is resolved against. -/
abbrev AtPath := ℤ × Option (List Byte)

/-- The sysdeps that resolve paths, with their other arguments. -/
inductive AtOp
  | openat (path : AtPath) (flags mode : ℤ)
  | mkdirat (path : AtPath) (mode : ℤ)
  | unlinkat (path : AtPath) (flags : ℕ)
  | renameat (oldPath newPath : AtPath)
  | fchmodat (path : AtPath) (mode : ℤ)
  | linkat (oldPath newPath : AtPath)
  | symlinkat (target : List Byte) (path : AtPath)
  | readlinkat (path : AtPath) (maxSize : ℕ)
  | fchownat (path : AtPath) (owner group : ℤ) (flags : ℕ)
  | mknodat (path : AtPath) (mode dev : ℤ)
  | mkfifoat (path : AtPath) (mode : ℤ)
  | faccessat (path : AtPath) (mode : ℤ)
  | fstatat (path : AtPath) (flags : ℕ)
  | utimensat (path : AtPath) (times : Option (UTime × UTime)) (flags : ℕ)

/-- Makes a call for its error only. -/
def AtOp.run : AtOp → Sys Unit
  | .openat (dirfd, path) flags mode => outcomeOf (sysOpenat dirfd path flags mode)
  | .mkdirat (dirfd, path) mode => sysMkdirat dirfd path mode
  | .unlinkat (dirfd, path) flags => sysUnlinkat dirfd path flags
  | .renameat (olddirfd, oldPath) (newdirfd, newPath) =>
    sysRenameat olddirfd oldPath newdirfd newPath
  | .fchmodat (dirfd, path) mode => sysFchmodat dirfd path mode
  | .linkat (olddirfd, oldPath) (newdirfd, newPath) =>
    sysLinkat olddirfd oldPath newdirfd newPath
  | .symlinkat target (dirfd, path) => sysSymlinkat dirfd path target
  | .readlinkat (dirfd, path) maxSize => outcomeOf (sysReadlinkat dirfd path maxSize)
  | .fchownat (dirfd, path) owner group flags => sysFchownat dirfd path owner group flags
  | .mknodat (dirfd, path) mode dev => sysMknodat dirfd path mode dev
  | .mkfifoat (dirfd, path) mode => sysMkfifoat dirfd path mode
  | .faccessat (dirfd, path) mode => sysFaccessat dirfd path mode
  | .fstatat (dirfd, path) flags => outcomeOf (sysStat .fdPath dirfd path flags)
  | .utimensat (dirfd, path) times flags => sysUtimensat dirfd path times flags

/-- The paths that a call resolves. `fchownat` with `AT_EMPTY_PATH` and `utimensat` without a path
work on the fd itself. -/
def AtOp.paths : AtOp → List AtPath
  | .openat path _ _ | .mkdirat path _ | .unlinkat path _ | .fchmodat path _ | .symlinkat _ path
  | .readlinkat path _ | .mknodat path _ _ | .mkfifoat path _ | .faccessat path _
  | .fstatat path _ => [path]
  | .renameat oldPath newPath | .linkat oldPath newPath => [oldPath, newPath]
  | .fchownat path _ _ flags => if flags &&& kAtEmptyPath ≠ 0 then [] else [path]
  | .utimensat path _ _ => if path.2 = none then [] else [path]

/-- The text that a call passes on with the paths. -/
def AtOp.text : AtOp → List (List Byte)
  | .symlinkat target _ => [target]
  | _ => []

section
variable (dirs : ℤ → Option (List Byte)) (s : Libc) (op : AtOp)

/-- The files that the paths name, if all of them name one. -/
def atNamedAll (paths : List AtPath) : Option (List (List Byte)) :=
  paths.mapM fun path => atNamed dirs s path.1 path.2

/-- With honest answers, every path that the call gives to the kernel is the file it names. -/
def ActsOnNamed : Prop :=
  ∀ trace r s', Act.Runs op.run s trace r s' → Honest dirs trace →
    ∀ step ∈ trace, step.1.data ≠ [] →
      (atNamedAll dirs s op.paths).map (op.text ++ ·) = some step.1.data

/-- The paths of the call fit, if all of them name a file. -/
def AtOp.Fits : Prop :=
  (atNamedAll dirs s op.paths).isSome → ∀ path ∈ op.paths, AtFits dirs s path.1 path.2

end

/-- Resolves paths in turn. -/
def resolveAll : List AtPath → Sys (List (List Byte))
  | [] => pure []
  | path :: paths => do
    let p ← atResolve path.1 path.2 kAtBuffer
    let ps ← resolveAll paths
    pure (p :: ps)

section
variable {dirs : ℤ → Option (List Byte)} {s s' : Libc} {trace : List (KCall × Answer)}

/-- Several paths are named if the first is and the others are. -/
theorem atNamedAll_cons {path : AtPath} {paths : List AtPath} :
    atNamedAll dirs s (path :: paths) = (atNamed dirs s path.1 path.2).bind fun p =>
      (atNamedAll dirs s paths).map (p :: ·) := by
  unfold atNamedAll
  rw [List.mapM_cons]
  cases atNamed dirs s path.1 path.2 with
  | none => rfl
  | some p =>
    cases List.mapM (fun path : AtPath => atNamed dirs s path.1 path.2) paths <;> rfl

/-- A run that resolves all paths. -/
theorem resolveAll_ok {paths : List AtPath} {ps : List (List Byte)}
    (hrun : Act.Runs (resolveAll paths) s trace (.ok ps) s') (hh : Honest dirs trace) :
    s' = s ∧ (atNamedAll dirs s paths).isSome ∧
      ((∀ path ∈ paths, AtFits dirs s path.1 path.2) → atNamedAll dirs s paths = some ps) := by
  induction paths generalizing trace ps s' with
  | nil =>
    obtain ⟨rfl, hps, rfl⟩ := Act.runs_pure.1 hrun
    cases hps
    exact ⟨rfl, rfl, fun _ => rfl⟩
  | cons path paths ih =>
    unfold resolveAll at hrun
    rcases Act.runs_bind.1 hrun with ⟨e, -, habs⟩ | ⟨p, mid, first, last, hfirst, hlast, rfl⟩
    · cases habs
    rcases Act.runs_bind.1 hlast with ⟨e, -, habs⟩ | ⟨qs, mid', next, _, hnext, hpure, rfl⟩
    · cases habs
    -- The first path, then the others; neither changes the state.
    obtain ⟨rfl, hps, rfl⟩ := Act.runs_pure.1 hpure
    cases hps
    rw [List.append_nil] at hh
    obtain ⟨hh1, hh2⟩ := honest_append.1 hh
    obtain ⟨rfl, hsome, hnamed⟩ := atResolve_ok hfirst hh1
    obtain ⟨rfl, hsome', hnamed'⟩ := ih hnext hh2
    obtain ⟨q, hq⟩ := Option.isSome_iff_exists.1 hsome
    obtain ⟨rs, hrs⟩ := Option.isSome_iff_exists.1 hsome'
    refine ⟨rfl, ?_, ?_⟩
    · rw [atNamedAll_cons, hq, hrs]
      rfl
    · intro hfits
      rw [atNamedAll_cons, hnamed (hfits path List.mem_cons_self),
        hnamed' (fun x hx => hfits x (List.mem_cons_of_mem _ hx))]
      rfl

/-- Paths that all name a file can be resolved with honest answers so that they come out right only
if all of them fit. -/
theorem resolveAll_reporting {paths : List AtPath} (h : (atNamedAll dirs s paths).isSome) :
    ∃ trace ps, Act.Runs (resolveAll paths) s trace (.ok ps) s ∧ Honest dirs trace ∧
      (atNamedAll dirs s paths = some ps → ∀ path ∈ paths, AtFits dirs s path.1 path.2) := by
  induction paths with
  | nil =>
    exact ⟨[], [], Act.runs_pure.2 ⟨rfl, rfl, rfl⟩, honest_nil dirs,
      fun _ _ h => absurd h List.not_mem_nil⟩
  | cons path paths ih =>
    obtain ⟨all, hall⟩ := Option.isSome_iff_exists.1 h
    rw [atNamedAll_cons] at hall
    obtain ⟨q, hq, hmap⟩ := Option.bind_eq_some_iff.1 hall
    obtain ⟨qs, hqs, -⟩ := Option.map_eq_some_iff.1 hmap
    have hsome : (atNamed dirs s path.1 path.2).isSome := by
      rw [hq]
      rfl
    obtain ⟨first, p, hfirst, hh1, hp⟩ := atResolve_reporting hsome
    obtain ⟨last, ps, hlast, hh2, hps⟩ := ih (by rw [hqs]; rfl)
    refine ⟨first ++ (last ++ []), p :: ps, ?_, ?_, ?_⟩
    · unfold resolveAll
      exact Act.runs_bind.2 (Or.inr ⟨p, s, first, last ++ [], hfirst,
        Act.runs_bind.2 (Or.inr ⟨ps, s, last, [], hlast, Act.runs_pure.2 ⟨rfl, rfl, rfl⟩, rfl⟩),
        rfl⟩)
    · rw [List.append_nil]
      exact honest_append.2 ⟨hh1, hh2⟩
    · intro heq x hx
      rw [atNamedAll_cons, hq, hqs] at heq
      obtain ⟨rfl, rfl⟩ := List.cons.inj (Option.some.inj heq)
      rcases List.mem_cons.1 hx with rfl | hx
      · exact hp hq
      · exact hps hqs x hx

/-- It resolves as many as there are. -/
theorem length_of_resolveAll {paths : List AtPath} {ps : List (List Byte)}
    (hrun : Act.Runs (resolveAll paths) s trace (.ok ps) s') : ps.length = paths.length := by
  induction paths generalizing trace ps s s' with
  | nil =>
    obtain ⟨-, hps, -⟩ := Act.runs_pure.1 hrun
    cases hps
    rfl
  | cons path paths ih =>
    unfold resolveAll at hrun
    rcases Act.runs_bind.1 hrun with ⟨e, -, habs⟩ | ⟨p, mid, first, last, -, hlast, -⟩
    · cases habs
    rcases Act.runs_bind.1 hlast with ⟨e, -, habs⟩ | ⟨qs, mid', next, _, hnext, hpure, -⟩
    · cases habs
    obtain ⟨-, hps, -⟩ := Act.runs_pure.1 hpure
    cases hps
    rw [List.length_cons, List.length_cons, ih hnext]

/-- Resolving paths gives the kernel none. -/
theorem callsOnly_resolveAll (paths : List AtPath) :
    CallsOnly (fun c => c.data = []) (resolveAll paths) := by
  induction paths with
  | nil => exact callsOnly_pure _
  | cons path paths ih =>
    unfold resolveAll
    apply callsOnly_bind (callsOnly_atResolve _ _ _)
    intro p
    exact callsOnly_bind ih fun ps => callsOnly_pure _

/-- What follows the paths gives them to the kernel, and no others. -/
structure PassesOn {α : Type} (k : Sys α) (data : List (List Byte)) : Prop where
  only : CallsOnly (fun c => c.data ≠ [] → c.data = data) k
  once : ∀ s, ∃ step ∈ (k.exec s fun _ => eio).2, step.1.data = data

/-- A call that resolves its paths and passes them on acts on what it names exactly when they
fit. -/
theorem actsOnNamed_of_passesOn {op : AtOp} {k : List (List Byte) → Sys Unit}
    (hop : op.run = resolveAll op.paths >>= k) (hpaths : op.paths ≠ [])
    (hk : ∀ ps, ps.length = op.paths.length → PassesOn (k ps) (op.text ++ ps)) :
    ActsOnNamed dirs s op ↔ op.Fits dirs s := by
  constructor
  · -- The paths are resolved by a kernel that reports, and then every call fails.
    intro h hnamed path hpath
    obtain ⟨first, ps, hrun, hh, hfits⟩ := resolveAll_reporting hnamed
    have hpass := hk ps (length_of_resolveAll hrun)
    obtain ⟨step, hstep, hdata⟩ := hpass.once s
    have hexec := Act.exec_runs (k ps) s fun _ => eio
    have hhonest : Honest dirs ((k ps).exec s fun _ => eio).2 := by
      intro step hstep _ hok
      have heio := Prog.exec_answers ((k ps) s) eio step hstep
      rw [heio] at hok
      exact absurd hok (by decide)
    have hne : step.1.data ≠ [] := by
      rw [hdata]
      intro hnil
      have hps := (List.append_eq_nil_iff.1 hnil).2
      have hlen := length_of_resolveAll hrun
      rw [hps] at hlen
      exact hpaths (List.length_eq_zero_iff.1 hlen.symm)
    have hall := h (first ++ ((k ps).exec s fun _ => eio).2) _ _
      (hop ▸ Act.runs_bind.2 (Or.inr ⟨ps, s, first, _, hrun, hexec, rfl⟩))
      (honest_append.2 ⟨hh, hhonest⟩) step (List.mem_append_right _ hstep) hne
    rw [hdata] at hall
    obtain ⟨qs, hqs, heq⟩ := Option.map_eq_some_iff.1 hall
    rw [List.append_cancel_left heq] at hqs
    exact hfits hqs path hpath
  · -- Resolving has no data of its own, so a call with data is one of what follows.
    intro hfits trace r s' hrun hh step hstep hne
    rw [hop] at hrun
    rcases Act.runs_bind.1 hrun with ⟨e, hfail, -⟩ | ⟨ps, mid, first, last, hfirst, hlast, rfl⟩
    · exact absurd (callsOnly_resolveAll _ _ _ _ _ hfail step hstep) hne
    · obtain ⟨hh1, -⟩ := honest_append.1 hh
      obtain ⟨-, hsome, hnamed⟩ := resolveAll_ok hfirst hh1
      rcases List.mem_append.1 hstep with h | h
      · exact absurd (callsOnly_resolveAll _ _ _ _ _ hfirst step h) hne
      · have hpass := hk ps (length_of_resolveAll hfirst)
        rw [hnamed (hfits hsome), Option.map_some, hpass.only mid last r s' hlast step h hne]

/-- One call with the paths, and its result. -/
theorem passesOn_syscall {α : Type} {c : KCall} {f : Answer → Sys α}
    (hf : ∀ a, CallsOnly (fun c' => c'.data ≠ [] → c'.data = c.data) (f a)) :
    PassesOn (syscall c >>= f) c.data where
  only := callsOnly_bind (callsOnly_syscall fun _ => rfl) hf
  once := by
    intro s
    exact ⟨(c, eio), List.mem_cons_self, rfl⟩

/-- The error of a call that passes on. -/
theorem PassesOn.outcome {α : Type} {m : Sys α} {data : List (List Byte)} (h : PassesOn m data) :
    PassesOn (outcomeOf m) data where
  only := callsOnly_bind h.only fun _ => callsOnly_pure _
  once := by
    intro s
    obtain ⟨step, hstep, hdata⟩ := h.once s
    exact ⟨step, Act.mem_exec_bind hstep, hdata⟩

/-- The outcome of calls in sequence is that of the last. -/
theorem outcomeOf_bind {α β : Type} (m : Sys α) (f : α → Sys β) :
    outcomeOf (m >>= f) = m >>= fun x => outcomeOf (f x) := by
  unfold outcomeOf
  rw [bind_assoc]

/-- A call that resolves one path. -/
theorem actsOnNamed_one {op : AtOp} {path : AtPath} {k : List Byte → Sys Unit}
    (hop : op.run = atResolve path.1 path.2 kAtBuffer >>= k) (hpaths : op.paths = [path])
    (hk : ∀ p, PassesOn (k p) (op.text ++ [p])) : ActsOnNamed dirs s op ↔ op.Fits dirs s := by
  have hrun : op.run = resolveAll op.paths >>= fun ps => k (ps.headD []) := by
    rw [hpaths, hop, resolveAll, resolveAll, bind_assoc]
    rfl
  apply actsOnNamed_of_passesOn hrun (by rw [hpaths]; exact List.cons_ne_nil _ _)
  intro ps hlen
  rw [hpaths] at hlen
  obtain ⟨p, rfl⟩ := List.length_eq_one_iff.1 hlen
  exact hk p

/-- A call that resolves two. -/
theorem actsOnNamed_two {op : AtOp} {old new : AtPath} {number : Syscall}
    (hop : op.run = atCall2 old.1 old.2 new.1 new.2 number) (hpaths : op.paths = [old, new])
    (htext : op.text = []) : ActsOnNamed dirs s op ↔ op.Fits dirs s := by
  have hrun : op.run = resolveAll op.paths >>= fun ps =>
      syscall (kcallWith number [] [] ps) >>= fun _ => pure () := by
    rw [hpaths, hop, resolveAll, resolveAll, resolveAll]
    unfold atCall2
    simp only [bind_assoc, pure_bind]
  apply actsOnNamed_of_passesOn hrun (by rw [hpaths]; exact List.cons_ne_nil _ _)
  intro ps _
  rw [htext, List.nil_append]
  exact passesOn_syscall fun _ => callsOnly_pure _

/-- A call that resolves one path and makes one kernel call with it. -/
theorem actsOnNamed_atCall {op : AtOp} {path : AtPath} {number : Syscall} {args : List ℤ}
    {α : Type} {result : Answer → α}
    (hop : op.run = outcomeOf (atCall path.1 path.2 number args result))
    (hpaths : op.paths = [path]) (htext : op.text = []) :
    ActsOnNamed dirs s op ↔ op.Fits dirs s := by
  unfold atCall at hop
  rw [outcomeOf_bind] at hop
  apply actsOnNamed_one hop hpaths
  intro p
  rw [htext, List.nil_append]
  exact (passesOn_syscall fun _ => callsOnly_pure _).outcome

/-- A call that resolves none works on no path. -/
theorem actsOnNamed_none {op : AtOp} (hpaths : op.paths = [])
    (h : CallsOnly (fun c => c.data = []) op.run) : ActsOnNamed dirs s op ↔ op.Fits dirs s := by
  refine iff_of_true ?_ ?_
  · intro trace r s' hrun _ step hstep hne
    exact absurd (h _ _ _ _ hrun step hstep) hne
  · intro _ path hpath
    rw [hpaths] at hpath
    exact absurd hpath List.not_mem_nil

/-- A call without a result is its own outcome. -/
theorem outcomeOf_unit (m : Sys Unit) : outcomeOf m = m := bind_pure_unit

/-- What `utimensat` does with its target, a handle or a path. -/
def utimens (byHandle : Bool) (times : Option (UTime × UTime)) (flags : ℕ)
    (target : List ℤ × List (List Byte)) : Sys Unit := do
  let (handles, paths) := target
  let now ← Act.ask (kcall .getunixtime [] [])
  let (atime, mtime) := times.getD (.now, .now)
  let (existAtime, existMtime) ←
    if atime = .omit ∨ mtime = .omit then do
      let st ← Act.ask (kcallWith (if byHandle then .fstat else statCall flags) handles [] paths)
      pure (if scError st.ret = 0 then (int64 (get64 st.block 64), int64 (get64 st.block 72))
        else (now.ret, now.ret))
    else
      pure (now.ret, now.ret)
  let args := [atime.value now.ret existAtime, mtime.value now.ret existMtime,
    if byHandle then 1 else 0]
  let _ ← syscall (kcallWith .utime handles args paths)
  pure ()

/-- `utimensat` finds its target and changes its times. -/
theorem sysUtimensat_eq (dirfd : ℤ) (path : Option (List Byte)) (times : Option (UTime × UTime))
    (flags : ℕ) : sysUtimensat dirfd path times flags =
      utimeTarget dirfd path >>= utimens path.isNone times flags := rfl

/-- It gives the kernel the paths of its target. -/
theorem callsOnly_utimens (byHandle : Bool) (times : Option (UTime × UTime)) (flags : ℕ)
    (handles : List ℤ) (paths : List (List Byte)) :
    CallsOnly (fun c => c.data ≠ [] → c.data = paths)
      (utimens byHandle times flags (handles, paths)) := by
  have hset : ∀ args : List ℤ, CallsOnly (fun c => c.data ≠ [] → c.data = paths)
      (syscall (kcallWith .utime handles args paths) >>= fun _ => pure () : Sys Unit) :=
    fun args => callsOnly_bind (callsOnly_syscall fun _ => rfl) fun a => callsOnly_pure _
  unfold utimens
  dsimp only
  refine callsOnly_bind (callsOnly_ask fun h => absurd rfl h) fun now => ?_
  split
  · refine callsOnly_bind (callsOnly_ask fun _ => rfl) fun st => ?_
    exact callsOnly_bind (callsOnly_pure _) fun exist => hset _
  · exact callsOnly_bind (callsOnly_pure _) fun exist => hset _

/-- It gives the kernel the path of its target once. -/
theorem passesOn_utimens (times : Option (UTime × UTime)) (flags : ℕ) (p : List Byte) :
    PassesOn (utimens false times flags ([], [p])) [p] where
  only := callsOnly_utimens false times flags [] [p]
  once := by
    intro s
    unfold utimens
    dsimp only
    rw [Act.exec_ask_bind]
    split
    · refine ⟨(kcallWith (statCall flags) [] [] [p], eio), ?_, rfl⟩
      apply List.mem_cons_of_mem
      rw [Act.exec_ask_bind]
      exact List.mem_cons_self
    · exact ⟨_, List.mem_cons_of_mem _ List.mem_cons_self, rfl⟩

/-- A `*at` call acts on what it names exactly when its paths fit. -/
theorem actsOnNamed_iff (dirs : ℤ → Option (List Byte)) (s : Libc) (op : AtOp) :
    ActsOnNamed dirs s op ↔ op.Fits dirs s := by
  cases op with
  | openat path flags mode =>
    have hop : (AtOp.openat path flags mode).run = atResolve path.1 path.2 kAtBuffer >>= fun p =>
        outcomeOf (syscall (kcallWith .open [] [flags, mode] [p]) >>= fun ret =>
          newFd ret.ret 3) := outcomeOf_bind _ _
    apply actsOnNamed_one hop rfl
    intro p
    have hpass := passesOn_syscall (c := kcallWith .open [] [flags, mode] [p])
      (f := fun ret => newFd ret.ret 3) fun a => callsOnly_newFd fun h => absurd rfl h
    exact hpass.outcome
  | renameat oldPath newPath => exact actsOnNamed_two rfl rfl rfl
  | linkat oldPath newPath => exact actsOnNamed_two rfl rfl rfl
  | symlinkat target path =>
    refine @actsOnNamed_one dirs s _ path _ rfl rfl fun p => ?_
    exact passesOn_syscall (c := kcallWith .symlink [] [] [target, p]) fun a => callsOnly_pure _
  | readlinkat path maxSize => exact actsOnNamed_atCall rfl rfl rfl
  | fstatat path flags => exact actsOnNamed_atCall rfl rfl rfl
  | mkdirat path mode => exact actsOnNamed_atCall (outcomeOf_unit _).symm rfl rfl
  | unlinkat path flags => exact actsOnNamed_atCall (outcomeOf_unit _).symm rfl rfl
  | fchmodat path mode => exact actsOnNamed_atCall (outcomeOf_unit _).symm rfl rfl
  | mknodat path mode dev => exact actsOnNamed_atCall (outcomeOf_unit _).symm rfl rfl
  | mkfifoat path mode => exact actsOnNamed_atCall (outcomeOf_unit _).symm rfl rfl
  | faccessat path mode => exact actsOnNamed_atCall (outcomeOf_unit _).symm rfl rfl
  | fchownat path owner group flags =>
    by_cases h : flags &&& kAtEmptyPath ≠ 0
    · -- The fd itself is changed.
      have hpaths : (AtOp.fchownat path owner group flags).paths = [] := if_pos h
      apply actsOnNamed_none hpaths
      show CallsOnly _ (sysFchownat path.1 path.2 owner group flags)
      unfold sysFchownat handleCall
      rw [if_pos h]
      apply callsOnly_withHandle
      intro handle
      exact callsOnly_bind (callsOnly_syscall rfl) fun a => callsOnly_pure _
    · have hpaths : (AtOp.fchownat path owner group flags).paths = [path] := if_neg h
      have hop : (AtOp.fchownat path owner group flags).run =
          outcomeOf (atCall path.1 path.2 .chown [0, owner, group, flags] fun _ => ()) := by
        show sysFchownat path.1 path.2 owner group flags = _
        unfold sysFchownat
        rw [if_neg h, outcomeOf_unit]
      exact actsOnNamed_atCall hop hpaths rfl
  | utimensat path times flags =>
    obtain ⟨dirfd, path⟩ := path
    cases path with
    | none =>
      -- The times of the open file are set.
      apply actsOnNamed_none rfl
      show CallsOnly _ (sysUtimensat dirfd none times flags)
      rw [sysUtimensat_eq]
      unfold utimeTarget
      rw [withHandle_bind]
      refine callsOnly_withHandle fun handle => ?_
      intro s trace r s' hrun step hstep
      have hcalls := callsOnly_utimens true times flags [handle] [] s trace r s' hrun step hstep
      by_contra hne
      exact hne (hcalls hne)
    | some path =>
      have hop : (AtOp.utimensat (dirfd, some path) times flags).run =
          atResolve dirfd (some path) kAtBuffer >>= fun p =>
            utimens false times flags ([], [p]) := by
        show sysUtimensat dirfd (some path) times flags = _
        rw [sysUtimensat_eq]
        unfold utimeTarget
        rw [bind_assoc]
        rfl
      exact @actsOnNamed_one dirs s _ (dirfd, some path) _ hop rfl
        fun p => passesOn_utimens times flags p

end

/-! ## Opening a directory -/

section
variable (s : Libc) (path : List Byte)

/-- The directory that the stream of an `OpenDir` reads, with `ReadEntries`, is the path that the call
was given. -/
def OpensWhole : Prop :=
  ∀ trace handle s', Act.Runs (sysOpenDir (some path)) s trace (.ok handle) s' →
    ∀ maxSize trace' r s'', Act.Runs (sysReadEntries handle maxSize) s' trace' r s'' →
      ∀ step ∈ trace', step.1.data ≠ [] → step.1.data = [path]

/-- The path fits the stream, or no stream is free and `OpenDir` fails. -/
def OpenFits : Prop :=
  path.length < kDirBuffer ∨ freeStream s = none

end

/-- A stream just opened is read by the handle of its slot: the first read asks for the path that the
slot has. -/
theorem runs_readOpened {s s' : Libc} {slot maxSize : ℕ} {path : List Byte}
    {trace : List (KCall × Answer)} {r : Except Errno (List Byte)} (hslot : slot < kMaxDirs)
    (hrun : Act.Runs (sysReadEntries (slot + kDirHandleBase) maxSize)
      (s.setDir slot (openedStream path)) trace r s') :
    ∃ a, trace = [(readdirCall (path.take 255), a)] := by
  have hopened : (s.setDir slot (openedStream path)).dirStreams slot =
      openedStream path (s.dirStreams slot) := Function.update_self _ _ _
  have hbase : kDirHandleBase ≤ (slot : ℤ) + kDirHandleBase := Int.le_add_of_nonneg_left (by omega)
  have hunloaded : ¬(openedStream path (s.dirStreams slot)).loaded = true := Bool.false_ne_true
  have hback : (slot : ℤ) + kDirHandleBase - kDirHandleBase = slot := Int.add_sub_cancel _ _
  rw [sysReadEntries_eq] at hrun
  unfold streamFor at hrun
  rw [bind_assoc, Act.runs_get_bind] at hrun
  dsimp only at hrun
  rw [if_pos hbase, hback, Int.toNat_natCast, hopened, if_neg, Act.runs_pure_bind,
    runs_readStream, hopened, if_neg hunloaded] at hrun
  · obtain ⟨a, rfl, -⟩ := hrun
    exact ⟨a, rfl⟩
  · rintro (hneg | hbig | hfree)
    · omega
    · omega
    · cases hfree

/-- `OpenDir` reads the directory that it is given exactly when the path fits. -/
theorem opensWhole_iff (s : Libc) (path : List Byte) : OpensWhole s path ↔ OpenFits s path := by
  constructor
  · intro h
    by_contra hfits
    unfold OpenFits at hfits
    cases hfree : freeStream s with
    | none => exact hfits (Or.inr hfree)
    | some slot =>
      have hslot : slot < kMaxDirs := by
        have hfound := (findStream_eq_some.1 hfree).2.1
        omega
      have hopen : Act.Runs (sysOpenDir (some path)) s [] (.ok (slot + kDirHandleBase))
          (s.setDir slot (openedStream path)) :=
        runs_sysOpenDir.2 ⟨rfl, Or.inl ⟨slot, hfree, rfl, rfl⟩⟩
      have hread := Act.exec_runs (sysReadEntries (slot + kDirHandleBase) 280)
        (s.setDir slot (openedStream path)) fun _ => eio
      obtain ⟨a, htrace⟩ := runs_readOpened hslot hread
      have hpath := h [] _ _ hopen 280 _ _ _ hread (readdirCall (path.take 255), a)
        (htrace ▸ List.mem_cons_self) (List.cons_ne_nil _ _)
      -- The path that is read is one of at most 255 bytes.
      have htake : path.take 255 = path := (List.cons.inj hpath).1
      have hlen := congrArg List.length htake
      rw [List.length_take] at hlen
      unfold kDirBuffer at hfits
      omega
  · intro hfits trace handle s' hopen maxSize trace' r s'' hread step hstep _
    obtain ⟨-, ⟨slot, hfree, hhandle, rfl⟩ | ⟨-, habs, -⟩⟩ := runs_sysOpenDir.1 hopen
    · cases hhandle
      have hslot : slot < kMaxDirs := by
        have hfound := (findStream_eq_some.1 hfree).2.1
        omega
      obtain ⟨a, rfl⟩ := runs_readOpened hslot hread
      rcases hfits with hlt | hnone
      · have htake : path.take 255 = path := by
          apply List.take_of_length_le
          unfold kDirBuffer at hlt
          omega
        rw [List.mem_singleton.1 hstep]
        exact congrArg (· :: []) htake
      · rw [hfree] at hnone
        cases hnone
    · cases habs

/-- `at_resolve`, `OpenDir` and the `*at` calls work on the path that is named, with honest answers,
exactly when the paths fit their buffers. -/
theorem atPaths_iff (dirs : ℤ → Option (List Byte)) (s : Libc) (dirfd : ℤ)
    (path : Option (List Byte)) (dirPath : List Byte) (op : AtOp) :
    (ResolvesExactly dirs s dirfd path ↔ AtFits dirs s dirfd path) ∧
      (OpensWhole s dirPath ↔ OpenFits s dirPath) ∧
      (ActsOnNamed dirs s op ↔ op.Fits dirs s) :=
  ⟨resolvesExactly_iff dirs s dirfd path, opensWhole_iff s dirPath, actsOnNamed_iff dirs s op⟩

/-- `/tmp`, open as fd 3. -/
def tmpDirs (handle : ℤ) : Option (List Byte) :=
  if handle = 3 then some [47#8, 116#8, 109#8, 112#8] else none

/-- A process that has `/tmp` open. -/
def tmpLibc : Libc := initialLibc.setFd 3 3

/-- A relative path of 511 bytes, `a/a/…/a/b`. -/
def deepPath : List Byte := (List.replicate 255 [97#8, 47#8]).flatten ++ [98#8]

/-- Below `/tmp` the path does not fit: what is removed is another file. -/
theorem unlinkat_truncates : ¬ResolvesExactly tmpDirs tmpLibc 3 (some deepPath) ∧
    ¬ActsOnNamed tmpDirs tmpLibc (.unlinkat (3, some deepPath) 0) := by
  have hrelative : ¬Direct 3 deepPath := by
    rintro (hslash | hcwd)
    · exact absurd hslash (by decide)
    · exact absurd hcwd (by decide)
  have hopen : ¬handleForFd tmpLibc.fdTable 3 < 0 := by decide
  have hdir : tmpDirs (handleForFd tmpLibc.fdTable 3) = some [47#8, 116#8, 109#8, 112#8] := rfl
  have hlong : ¬AtFits tmpDirs tmpLibc 3 (some deepPath) := by
    intro hfits
    have hroom := (hfits deepPath _ rfl hrelative hopen hdir).2
    have hlen : deepPath.length = 511 := by decide +kernel
    have hbuffer : kAtBuffer = 512 := rfl
    unfold joinPath at hroom
    rw [List.length_append, List.length_append, hlen, hbuffer, List.length_cons] at hroom
    omega
  rw [resolvesExactly_iff, actsOnNamed_iff]
  refine ⟨hlong, fun hfits => hlong ?_⟩
  have hnamed : (atNamedAll tmpDirs tmpLibc [(3, some deepPath)]).isSome := by
    rw [atNamedAll_cons, atNamed_relative hrelative hopen hdir]
    rfl
  exact hfits hnamed (3, some deepPath) List.mem_cons_self

end IUserApps.Sysdeps
