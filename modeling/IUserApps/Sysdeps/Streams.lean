import IUserApps.Sysdeps.Files

/-!
# Directory streams

What `OpenDir` and `ReadEntries` do with the table of directory streams: which slot is found, what
the first read of a directory asks the kernel, and which records a read yields. A stream keeps the
snapshot of its first read and a cursor into it, so that the reads together yield the records of the
snapshot in order (`fillRecords_eq`).
-/

namespace IUserApps.Sysdeps

open Interact

variable {s s' : Libc} {trace : List (KCall × Answer)}

/-! ## The table -/

/-- One directory stream is changed. -/
@[simp] theorem dirStreams_setDir (s : Libc) (slot : ℕ) (f : DirStream → DirStream) :
    (s.setDir slot f).dirStreams =
      Function.update s.dirStreams slot (f (s.dirStreams slot)) := rfl

/-- The table of fds is no part of the directory streams. -/
@[simp] theorem dirStreams_setFd (s : Libc) (fd : ℕ) (handle : ℤ) :
    (s.setFd fd handle).dirStreams = s.dirStreams := rfl

/-- The search over the streams as one over their numbers. -/
theorem findStream_eq_find (streams : ℕ → DirStream) (p : DirStream → Bool) (n i : ℕ) :
    findStream streams p n i = (List.range' i n).find? fun k => p (streams k) := by
  induction n generalizing i with
  | zero => rfl
  | succ n ih =>
    rw [findStream, List.range'_succ, List.find?_cons, ih]
    cases hp : p (streams i) with
    | true => rfl
    | false => rfl

/-- The search finds the first stream with the property. -/
theorem findStream_eq_some {streams : ℕ → DirStream} {p : DirStream → Bool} {n i found : ℕ} :
    findStream streams p n i = some found ↔
      i ≤ found ∧ found < i + n ∧ p (streams found) = true ∧
        ∀ k, i ≤ k → k < found → p (streams k) = false := by
  rw [findStream_eq_find, List.find?_range'_eq_some]
  simp only [List.mem_range'_1, Bool.not_eq_true']
  constructor
  · rintro ⟨hp, ⟨hle, hlt⟩, hfirst⟩
    exact ⟨hle, hlt, hp, hfirst⟩
  · rintro ⟨hle, hlt, hp, hfirst⟩
    exact ⟨hp, ⟨hle, hlt⟩, hfirst⟩

/-- It finds none when no stream has the property. -/
theorem findStream_eq_none {streams : ℕ → DirStream} {p : DirStream → Bool} {n i : ℕ} :
    findStream streams p n i = none ↔ ∀ k, i ≤ k → k < i + n → p (streams k) = false := by
  rw [findStream_eq_find, List.find?_range'_eq_none]
  simp only [Bool.not_eq_true']

/-- The slot that a new stream takes. -/
def freeStream (s : Libc) : Option ℕ := findStream s.dirStreams (fun d => !d.inUse) kMaxDirs 0

/-- A stream just taken for a path. -/
def openedStream (path : List Byte) (d : DirStream) : DirStream :=
  { d with
    inUse := true
    loaded := false
    fromFd := false
    ownerFd := 0
    cursor := 0
    count := 0
    path := path.take 255 }

/-- A stream taken in sequence. -/
theorem runs_allocDirStream_bind {α : Type} {path : List Byte} {f : Option ℕ → Sys α}
    {r : Except Errno α} :
    Act.Runs (allocDirStream path >>= f) s trace r s' ↔
      Act.Runs (f (freeStream s))
        ((freeStream s).elim s fun slot => s.setDir slot (openedStream path)) trace r s' := by
  have h : (allocDirStream path >>= f) s = f (freeStream s)
      ((freeStream s).elim s fun slot => s.setDir slot (openedStream path)) := by
    have hget : ∀ g : Libc → Sys α, (Act.get >>= g) s = g s s := fun g => rfl
    unfold allocDirStream freeStream
    rw [bind_assoc, hget]
    cases findStream s.dirStreams (fun d => !d.inUse) kMaxDirs 0 <;> rfl
  show Prog.Runs _ _ _ ↔ Prog.Runs _ _ _
  rw [h]

/-- `OpenDir` takes a stream for its path, or fails. -/
theorem runs_sysOpenDir {path : List Byte} {r : Except Errno ℤ} :
    Act.Runs (sysOpenDir (some path)) s trace r s' ↔ trace = [] ∧
      ((∃ slot, freeStream s = some slot ∧ r = .ok (slot + kDirHandleBase) ∧
        s' = s.setDir slot (openedStream path)) ∨
      (freeStream s = none ∧ r = .error EMFILE ∧ s' = s)) := by
  unfold sysOpenDir
  dsimp only
  rw [runs_allocDirStream_bind]
  cases freeStream s with
  | some slot =>
    dsimp only
    rw [Option.elim_some, Act.runs_pure]
    constructor
    · rintro ⟨rfl, rfl, rfl⟩
      exact ⟨rfl, Or.inl ⟨slot, rfl, rfl, rfl⟩⟩
    · rintro ⟨rfl, ⟨slot', hslot, rfl, rfl⟩ | ⟨hnone, -⟩⟩
      · cases hslot
        exact ⟨rfl, rfl, rfl⟩
      · cases hnone
  | none =>
    dsimp only
    rw [Option.elim_none, Act.runs_throw]
    constructor
    · rintro ⟨rfl, rfl, rfl⟩
      exact ⟨rfl, Or.inr ⟨rfl, rfl, rfl⟩⟩
    · rintro ⟨rfl, ⟨slot, hslot, -⟩ | ⟨-, rfl, rfl⟩⟩
      · cases hslot
      · exact ⟨rfl, rfl, rfl⟩

/-! ## Reading -/

/-- A stream with the snapshot that an answer brings. -/
def loadedStream (a : Answer) (d : DirStream) : DirStream :=
  { d with
    count := u32 a.ret
    cursor := 0
    loaded := true
    entries := (List.range kMaxDirEntries).map (direntAt a.block) }

/-- A stream whose cursor has moved. -/
def movedStream (cursor : ℕ) (d : DirStream) : DirStream := { d with cursor := cursor }

/-- The call that takes the snapshot of a path. -/
def readdirCall (path : List Byte) : KCall := kcallWith .readdir [] [kMaxDirEntries] [path]

/-- What a read yields of a stream, and the cursor after it. -/
def DirStream.fill (d : DirStream) (maxSize : ℕ) : List Byte × ℕ :=
  fillRecords maxSize ((d.entries.take d.count).drop d.cursor) d.cursor []

/-- The snapshot is taken on the first read. -/
theorem runs_loadStream_bind {α : Type} {slot : ℕ} {f : Unit → Sys α} {r : Except Errno α} :
    Act.Runs (loadStream slot >>= f) s trace r s' ↔
      if (s.dirStreams slot).loaded = true then Act.Runs (f ()) s trace r s'
      else ∃ a rest, trace = (readdirCall (s.dirStreams slot).path, a) :: rest ∧
        ((a.ok = false ∧ rest = [] ∧ r = .error (scError a.ret) ∧ s' = s) ∨
          (a.ok = true ∧ Act.Runs (f ()) (s.setDir slot (loadedStream a)) rest r s')) := by
  unfold loadStream
  rw [bind_assoc, Act.runs_get_bind]
  split
  · exact Iff.rfl
  · rw [bind_assoc, runs_syscall_bind]
    exact Iff.rfl

/-- The records of the stream's next entries, as many as fit. -/
def fillStream (slot maxSize : ℕ) : Sys (List Byte) := do
  let s ← Act.get
  let dir := s.dirStreams slot
  let (out, cursor) :=
    fillRecords maxSize ((dir.entries.take dir.count).drop dir.cursor) dir.cursor []
  Act.modify fun s => s.setDir slot fun d =>
    let moved : DirStream := { d with cursor := cursor }
    moved
  pure out

/-- A read finds the stream, loads it on the first time and fills the buffer. -/
theorem sysReadEntries_eq (handle : ℤ) (maxSize : ℕ) : sysReadEntries handle maxSize =
    streamFor handle >>= fun slot => loadStream slot >>= fun _ => fillStream slot maxSize := rfl

/-- Filling the buffer makes no call and moves the stream on. -/
theorem runs_fillStream {slot maxSize : ℕ} {r : Except Errno (List Byte)} :
    Act.Runs (fillStream slot maxSize) s trace r s' ↔
      trace = [] ∧ r = .ok ((s.dirStreams slot).fill maxSize).1 ∧
        s' = s.setDir slot (movedStream ((s.dirStreams slot).fill maxSize).2) := by
  show Prog.Runs (.done (.ok ((s.dirStreams slot).fill maxSize).1,
    s.setDir slot (movedStream ((s.dirStreams slot).fill maxSize).2))) trace (r, s') ↔ _
  rw [Prog.runs_done, Prod.mk.injEq]

/-- The state of a stream that is read: with the snapshot it has, or the one that the answer
brings. -/
theorem runs_readStream {slot maxSize : ℕ} {r : Except Errno (List Byte)} :
    Act.Runs (loadStream slot >>= fun _ => fillStream slot maxSize) s trace r s' ↔
      if (s.dirStreams slot).loaded = true then
        trace = [] ∧ r = .ok ((s.dirStreams slot).fill maxSize).1 ∧
          s' = s.setDir slot (movedStream ((s.dirStreams slot).fill maxSize).2)
      else ∃ a, trace = [(readdirCall (s.dirStreams slot).path, a)] ∧
        ((a.ok = false ∧ r = .error (scError a.ret) ∧ s' = s) ∨
          (a.ok = true ∧ r = .ok ((loadedStream a (s.dirStreams slot)).fill maxSize).1 ∧
            s' = (s.setDir slot (loadedStream a)).setDir slot
              (movedStream ((loadedStream a (s.dirStreams slot)).fill maxSize).2))) := by
  rw [runs_loadStream_bind]
  split
  · exact runs_fillStream
  · have hself : ∀ a, (s.setDir slot (loadedStream a)).dirStreams slot =
        loadedStream a (s.dirStreams slot) := fun a => Function.update_self _ _ _
    constructor
    · rintro ⟨a, rest, rfl, ⟨hok, rfl, rfl, rfl⟩ | ⟨hok, hrun⟩⟩
      · exact ⟨a, rfl, Or.inl ⟨hok, rfl, rfl⟩⟩
      · rw [runs_fillStream, hself] at hrun
        obtain ⟨rfl, rfl, rfl⟩ := hrun
        exact ⟨a, rfl, Or.inr ⟨hok, rfl, rfl⟩⟩
    · rintro ⟨a, rfl, ⟨hok, rfl, rfl⟩ | ⟨hok, rfl, rfl⟩⟩
      · exact ⟨a, [], rfl, Or.inl ⟨hok, rfl, rfl, rfl⟩⟩
      · refine ⟨a, [], rfl, Or.inr ⟨hok, ?_⟩⟩
        rw [runs_fillStream, hself]
        exact ⟨rfl, rfl, rfl⟩

/-! ## Records -/

/-- The records of entries, numbered from a place on. -/
def records : ℕ → List Dirent → List Byte
  | _, [] => []
  | cursor, e :: entries => direntRecord e cursor ++ records (cursor + 1) entries

/-- Records of entries in sequence stand in sequence. -/
theorem records_append (cursor : ℕ) (es es' : List Dirent) :
    records cursor (es ++ es') = records cursor es ++ records (cursor + es.length) es' := by
  induction es generalizing cursor with
  | nil => rfl
  | cons e es ih =>
    have hlen : cursor + (e :: es).length = cursor + 1 + es.length := by
      rw [List.length_cons]
      omega
    rw [List.cons_append, records, records, ih, hlen, List.append_assoc]

/-- A number takes the bytes it is given. -/
theorem length_leBytes (k n : ℕ) : (leBytes k n).length = k := by
  induction k generalizing n with
  | zero => rfl
  | succ k ih => rw [leBytes, List.length_cons, ih]

/-- A record takes the length that it names. -/
theorem length_direntRecord (e : Dirent) (cursor : ℕ) :
    (direntRecord e cursor).length = reclen e := by
  have hroom : namePrefix + e.name.length ≤ reclen e := by
    unfold reclen
    omega
  unfold direntRecord
  simp only [List.length_append, length_leBytes, List.length_replicate]
  have hfields : namePrefix = 19 := rfl
  omega

/-- A name of the kernel's is at most 256 bytes. -/
theorem reclen_direntAt_le (b : Block) (i : ℕ) : reclen (direntAt b i) ≤ 280 := by
  have hname : (direntAt b i).name.length ≤ 256 := by
    have hle := List.takeWhile_prefix (p := fun x : Byte => x ≠ 0#8)
      (l := (List.range 256).map fun k => b (272 * i + k))
    have hlen := hle.length_le
    rw [List.length_map, List.length_range] at hlen
    exact hlen
  unfold reclen namePrefix
  omega

/-- A read yields the records of the next entries, the first of them for certain if it fits. -/
theorem fillRecords_eq (maxSize : ℕ) (es : List Dirent) (cursor : ℕ) (out : List Byte) :
    ∃ k ≤ es.length, fillRecords maxSize es cursor out =
        (out ++ records cursor (es.take k), cursor + k) ∧
      (∀ e ∈ es.head?, out.length + reclen e ≤ maxSize → 0 < k) := by
  induction es generalizing cursor out with
  | nil =>
    refine ⟨0, Nat.le_refl _, ?_, fun e he => absurd he (Option.not_mem_none e)⟩
    rw [fillRecords, List.take_nil, records, List.append_nil, Nat.add_zero]
  | cons e es ih =>
    unfold fillRecords
    split
    · next hfull =>
      refine ⟨0, Nat.zero_le _, ?_, ?_⟩
      · rw [List.take_zero, records, List.append_nil, Nat.add_zero]
      · intro e' he'
        obtain rfl := Option.some.inj he'
        omega
    · obtain ⟨k, hk, heq, -⟩ := ih (cursor + 1) (out ++ direntRecord e cursor)
      refine ⟨k + 1, Nat.succ_le_succ hk, ?_, fun _ _ _ => Nat.succ_pos k⟩
      rw [heq, List.take_succ_cons, records, List.append_assoc]
      congr 1
      omega

/-- A buffer is not filled beyond its size. -/
theorem length_fillRecords_le (maxSize : ℕ) (es : List Dirent) (cursor : ℕ) {out : List Byte}
    (hout : out.length ≤ maxSize) : (fillRecords maxSize es cursor out).1.length ≤ maxSize := by
  induction es generalizing cursor out with
  | nil => exact hout
  | cons e es ih =>
    unfold fillRecords
    split
    · exact hout
    · apply ih
      rw [List.length_append, length_direntRecord]
      omega

/-- What a read yields of a snapshot whose records fit any buffer of 280 bytes: the records of the
next entries, in its buffer, and those of one at least if there is one. -/
theorem fill_piece {d : DirStream} {snapshot : List Dirent} {maxSize : ℕ}
    (hsnap : d.entries.take d.count = snapshot) (hfits : ∀ e ∈ snapshot, reclen e ≤ 280)
    (hsize : 280 ≤ maxSize) : ∃ n ≤ snapshot.length - d.cursor,
      d.fill maxSize = (records d.cursor ((snapshot.drop d.cursor).take n), d.cursor + n) ∧
        (records d.cursor ((snapshot.drop d.cursor).take n)).length ≤ maxSize ∧
        (n = 0 → snapshot.drop d.cursor = []) := by
  obtain ⟨n, hn, hfill, hpos⟩ := fillRecords_eq maxSize (snapshot.drop d.cursor) d.cursor []
  have hle := length_fillRecords_le maxSize (snapshot.drop d.cursor) d.cursor
    (List.length_nil.trans_le (Nat.zero_le maxSize))
  rw [List.length_drop] at hn
  rw [hfill, List.nil_append] at hle
  refine ⟨n, hn, ?_, hle, fun hzero => ?_⟩
  · unfold DirStream.fill
    rw [hsnap, hfill, List.nil_append]
  · -- The next entry would have fitted.
    by_contra hne
    obtain ⟨e, rest, hcons⟩ := List.exists_cons_of_ne_nil hne
    have hmem : e ∈ snapshot := List.mem_of_mem_drop (hcons ▸ List.mem_cons_self)
    have hroom : ([] : List Byte).length + reclen e ≤ maxSize := by
      have hshort := hfits e hmem
      rw [List.length_nil]
      omega
    have hone := hpos e (by rw [hcons]; rfl) hroom
    omega

end IUserApps.Sysdeps
