import IUserApps.Frames
import IUserApps.Sysdeps.ReadDir

/-!
# What a reader finds in a directory

The buffers of `ReadEntries` hold records of different lengths, which a reader follows by the length
that each of them names. `readEach_readsBack` is about a whole sequence of reads of one stream, with
buffers of any sizes that have room for a record: each read yields whole records, aligned to 8
bytes, and what the records say, over all reads until one yields nothing, is the snapshot of the
directory in order, with the places 1, 2, 3 and so on.

Three facts carry it: a record says what its entry does (`ofRecord_direntRecord`), records written
one after another are found again (`splitRecords_records`), and a sequence of reads cuts the records
of the snapshot at some of their boundaries and leaves none out (`Yields`).
-/

namespace IUserApps.Sysdeps

open Interact

/-! ## The reader -/

/-- What a record says (`struct dirent`). -/
structure DirentFields where
  ino : ℕ
  off : ℕ
  type : ℕ
  name : List Byte
deriving DecidableEq, Repr

/-- The length that the record at the start of a buffer names (`d_reclen`). -/
def namedLength (buffer : List Byte) : ℕ := leNat ((buffer.drop 16).take 2)

/-- The fields of a record. -/
def DirentFields.ofRecord (record : List Byte) : DirentFields where
  ino := leNat (record.take 8)
  off := leNat ((record.drop 8).take 8)
  type := leNat ((record.drop 18).take 1)
  name := cstring (record.drop namePrefix)

/-- The records of a buffer, each where the one before it ends. -/
def splitRecords (buffer : List Byte) : Option (List (List Byte)) :=
  Frames.split namedLength buffer.length buffer

/-- What the records of a buffer say. -/
def readRecords (buffer : List Byte) : Option (List DirentFields) :=
  (splitRecords buffer).map (List.map .ofRecord)

/-! ## What is claimed -/

/-- What the record of the entry at a place should say. -/
def DirentFields.ofDirent (e : Dirent) (place : ℕ) : DirentFields :=
  ⟨e.inode, place + 1, dtFromFiletype e.type, e.name⟩

/-- What the records of a snapshot should say. -/
def listing (snapshot : List Dirent) : List DirentFields :=
  snapshot.zipIdx.map fun p => .ofDirent p.1 p.2

/-- An entry as `instantos_dirent` holds it, with a name that is terminated. -/
structure Dirent.Terminated (e : Dirent) : Prop where
  length_name : e.name.length ≤ 255
  not_mem_name : 0#8 ∉ e.name
  inode_lt : e.inode < 2 ^ 64

/-- What a read yields is whole aligned records, in a buffer of its size. -/
def WholeRecords (size : ℕ) (out : List Byte) : Prop :=
  out.length ≤ size ∧
    ∃ found, splitRecords out = some found ∧ found.flatten = out ∧
      ∀ record ∈ found, record.length % 8 = 0

/-- Reads with the buffers of some sizes yield whole records, which say what the snapshot does, up
to a read that yields nothing. There is one when there are more reads than entries. -/
structure ReadsBack (snapshot : List Dirent) (sizes : List ℕ) (outs : List (List Byte)) : Prop where
  whole : List.Forall₂ WholeRecords sizes outs
  inOrder : ∀ before after, outs = before ++ [] :: after →
    readRecords before.flatten = some (listing snapshot)
  ends : snapshot.length < sizes.length → [] ∈ outs

/-- Reads of one handle, one after another. -/
def readEach (handle : ℤ) : List ℕ → Sys (List (List Byte))
  | [] => pure []
  | size :: sizes => do
    let out ← sysReadEntries handle size
    let outs ← readEach handle sizes
    pure (out :: outs)

/-- The snapshot that the reads of a handle start with, and the calls that they make for it: the
stream of the handle is found or opened, and stands at the start of its snapshot, or takes one. -/
inductive Snapshots (s : Libc) (handle : ℤ) : List (KCall × Answer) → List Dirent → Prop
  | loaded {slot : ℕ} {opening : List (KCall × Answer)} {s' : Libc} :
    Act.Runs (streamFor handle) s opening (.ok slot) s' →
    (s'.dirStreams slot).loaded = true → (s'.dirStreams slot).cursor = 0 →
    Snapshots s handle opening ((s'.dirStreams slot).entries.take (s'.dirStreams slot).count)
  | taken {slot : ℕ} {opening : List (KCall × Answer)} {s' : Libc} {a : Answer} :
    Act.Runs (streamFor handle) s opening (.ok slot) s' →
    (s'.dirStreams slot).loaded = false → a.ok = true →
    Snapshots s handle (opening ++ [(readdirCall (s'.dirStreams slot).path, a)])
      ((List.range (u32 a.ret)).map (direntAt a.block))

/-! ## A record -/

variable {e : Dirent} {cursor : ℕ}

/-- The bytes of a number give it back. -/
theorem leNat_leBytes {k n : ℕ} (h : n < 256 ^ k) : leNat (leBytes k n) = n := by
  induction k generalizing n with
  | zero =>
    rw [Nat.pow_zero] at h
    rw [leBytes, leNat]
    omega
  | succ k ih =>
    have hhigh : n / 256 < 256 ^ k := by
      rw [Nat.pow_succ'] at h
      exact Nat.div_lt_of_lt_mul h
    rw [leBytes, leNat, ih hhigh, BitVec.toNat_ofNat]
    omega

/-- A type is at most 12. -/
theorem dtFromFiletype_lt (type : ℕ) : dtFromFiletype type < 256 := by
  unfold dtFromFiletype
  split <;> decide

/-- The name is read up to its end. -/
theorem cstring_append_replicate {name : List Byte} {n : ℕ} (h : 0#8 ∉ name) :
    cstring (name ++ List.replicate (n + 1) 0#8) = name := by
  have hname : ∀ b ∈ name, (decide (b ≠ 0#8)) = true := by
    intro b hb
    rw [decide_eq_true_eq]
    rintro rfl
    exact h hb
  unfold cstring
  rw [List.takeWhile_append_of_pos hname, List.replicate_succ, List.takeWhile_cons_of_neg (by simp),
    List.append_nil]

/-- The length of a record is a multiple of 8, with room for the NUL. -/
theorem reclen_spec (e : Dirent) :
    reclen e % 8 = 0 ∧ namePrefix + e.name.length < reclen e := by
  unfold reclen
  omega

/-- A record takes at most 280 bytes. -/
theorem reclen_le (h : e.name.length ≤ 255) : reclen e ≤ 280 := by
  unfold reclen namePrefix
  omega

/-- What stands behind a number. -/
theorem drop_leBytes (k n : ℕ) (rest : List Byte) : (leBytes k n ++ rest).drop k = rest :=
  List.drop_left' (length_leBytes k n)

/-- A number at the start of a buffer is read back. -/
theorem leNat_take_leBytes {k n : ℕ} (h : n < 256 ^ k) (rest : List Byte) :
    leNat ((leBytes k n ++ rest).take k) = n := by
  rw [List.take_left' (length_leBytes k n), leNat_leBytes h]

/-- A record with anything behind it, from each of its fields on. -/
theorem drop_direntRecord (e : Dirent) (cursor : ℕ) (rest : List Byte) : ∃ n,
    let name := e.name ++ List.replicate (n + 1) 0#8 ++ rest
    let type := leBytes 1 (dtFromFiletype e.type) ++ name
    let len := leBytes 2 (reclen e) ++ type
    let off := leBytes 8 (cursor + 1) ++ len
    let record := direntRecord e cursor ++ rest
    record = leBytes 8 e.inode ++ off ∧ record.drop 8 = off ∧ record.drop 16 = len ∧
      record.drop 18 = type ∧ record.drop namePrefix = name := by
  have hroom := (reclen_spec e).2
  have htail : reclen e - (namePrefix + e.name.length) - 1 + 1 =
      reclen e - (namePrefix + e.name.length) := by omega
  refine ⟨reclen e - (namePrefix + e.name.length) - 1, ?_⟩
  intro name type len off record
  have hrecord : record = leBytes 8 e.inode ++ off := by
    simp only [record, off, len, type, name, htail, direntRecord, List.append_assoc]
  have hoff : record.drop 8 = off := by
    rw [hrecord]
    exact drop_leBytes 8 _ _
  have hlen : record.drop 16 = len := by
    calc record.drop 16 = (record.drop 8).drop 8 := by rw [List.drop_drop]
      _ = len := by rw [hoff]; exact drop_leBytes 8 _ _
  have htype : record.drop 18 = type := by
    calc record.drop 18 = (record.drop 16).drop 2 := by rw [List.drop_drop]
      _ = type := by rw [hlen]; exact drop_leBytes 2 _ _
  have hname : record.drop namePrefix = name := by
    calc record.drop 19 = (record.drop 18).drop 1 := by rw [List.drop_drop]
      _ = name := by rw [htype]; exact drop_leBytes 1 _ _
  exact ⟨hrecord, hoff, hlen, htype, hname⟩

/-- A record says what its entry does. -/
theorem ofRecord_direntRecord (h : e.Terminated) (hcursor : cursor < kMaxDirEntries) :
    DirentFields.ofRecord (direntRecord e cursor) = .ofDirent e cursor := by
  obtain ⟨n, hrecord, hoff, -, htype, hname⟩ := drop_direntRecord e cursor []
  rw [List.append_nil] at hrecord hoff htype hname
  have hplace : cursor + 1 < 256 ^ 8 := by
    unfold kMaxDirEntries at hcursor
    omega
  unfold DirentFields.ofRecord DirentFields.ofDirent
  rw [hoff, htype, hname, hrecord, leNat_take_leBytes h.inode_lt, leNat_take_leBytes hplace,
    leNat_take_leBytes (dtFromFiletype_lt e.type), List.append_nil,
    cstring_append_replicate h.not_mem_name]

/-- A record names its length, whatever comes after it. -/
theorem isFrame_direntRecord (h : e.name.length ≤ 255) :
    Frames.IsFrame namedLength (direntRecord e cursor) := by
  have hle := reclen_le h
  constructor
  · apply List.ne_nil_of_length_pos
    rw [length_direntRecord]
    exact reclen_pos e
  · intro rest
    obtain ⟨n, -, -, hlen, -⟩ := drop_direntRecord e cursor rest
    unfold namedLength
    rw [hlen, leNat_take_leBytes (by omega), length_direntRecord]

/-! ## Records one after another -/

/-- The records of entries, each by itself. -/
def recordsOf (cursor : ℕ) (es : List Dirent) : List (List Byte) :=
  (es.zipIdx cursor).map fun p => direntRecord p.1 p.2

/-- The records in a row are the bytes of the entries. -/
theorem flatten_recordsOf (cursor : ℕ) (es : List Dirent) :
    (recordsOf cursor es).flatten = records cursor es := by
  unfold recordsOf
  induction es generalizing cursor with
  | nil => rfl
  | cons e es ih => rw [List.zipIdx_cons, List.map_cons, List.flatten_cons, ih, records]

/-- Records written one after another are found again. -/
theorem splitRecords_records {es : List Dirent} (h : ∀ e ∈ es, e.name.length ≤ 255) (cursor : ℕ) :
    splitRecords (records cursor es) = some (recordsOf cursor es) := by
  have hframes : ∀ record ∈ recordsOf cursor es, Frames.IsFrame namedLength record := by
    intro record hrecord
    obtain ⟨p, hp, rfl⟩ := List.mem_map.1 hrecord
    exact isFrame_direntRecord (h p.1 (List.fst_mem_of_mem_zipIdx hp))
  have hfuel := Frames.length_le_flatten fun record hrecord => (hframes record hrecord).ne_nil
  unfold splitRecords
  rw [← flatten_recordsOf]
  exact Frames.split_flatten hframes hfuel

/-- Every record takes a multiple of 8 bytes. -/
theorem length_of_mem_recordsOf {es : List Dirent} {record : List Byte}
    (h : record ∈ recordsOf cursor es) : record.length % 8 = 0 := by
  obtain ⟨p, -, rfl⟩ := List.mem_map.1 h
  rw [length_direntRecord]
  exact (reclen_spec p.1).1

/-- The records of a snapshot say what they should. -/
theorem readRecords_records {snapshot : List Dirent} (h : ∀ e ∈ snapshot, e.Terminated)
    (hfew : snapshot.length ≤ kMaxDirEntries) :
    readRecords (records 0 snapshot) = some (listing snapshot) := by
  have hsplit := splitRecords_records (fun e he => (h e he).length_name) 0
  unfold readRecords listing
  rw [hsplit, Option.map_some, recordsOf, List.map_map]
  apply congrArg some
  apply List.map_congr_left
  intro p hp
  have hplace := List.snd_lt_of_mem_zipIdx hp
  exact ofRecord_direntRecord (h p.1 (List.fst_mem_of_mem_zipIdx hp)) (by omega)

/-! ## A sequence of reads -/

/-- Reads cut the records of entries into pieces, each of which fits its buffer, and is empty only
when there are no more. -/
inductive Yields : List Dirent → ℕ → List ℕ → List (List Byte) → Prop
  | nil {es : List Dirent} {cursor : ℕ} : Yields es cursor [] []
  | cons {es : List Dirent} {cursor size k : ℕ} {sizes : List ℕ} {outs : List (List Byte)} :
    (records cursor (es.take k)).length ≤ size → (k = 0 → es = []) →
    Yields (es.drop k) (cursor + k) sizes outs →
    Yields es cursor (size :: sizes) (records cursor (es.take k) :: outs)

section
variable {es : List Dirent} {sizes : List ℕ} {outs : List (List Byte)}

/-- Each piece is whole records. -/
theorem Yields.whole (h : Yields es cursor sizes outs) (hes : ∀ e ∈ es, e.name.length ≤ 255) :
    List.Forall₂ WholeRecords sizes outs := by
  induction h with
  | nil => exact .nil
  | @cons es cursor size k sizes outs hsize _ _ ih =>
    have htake : ∀ e ∈ es.take k, e.name.length ≤ 255 := fun e he => hes e (List.mem_of_mem_take he)
    have hsplit := splitRecords_records htake cursor
    refine .cons ⟨hsize, _, hsplit, flatten_recordsOf _ _, ?_⟩
      (ih fun e he => hes e (List.mem_of_mem_drop he))
    exact fun record hrecord => length_of_mem_recordsOf hrecord

/-- What comes before an empty piece is the records of all entries. -/
theorem Yields.all (h : Yields es cursor sizes outs) {before after : List (List Byte)}
    (hend : outs = before ++ [] :: after) : before.flatten = records cursor es := by
  induction h generalizing before with
  | nil => exact absurd hend.symm (List.append_ne_nil_of_right_ne_nil _ (List.cons_ne_nil _ _))
  | @cons es cursor size k sizes outs _ hlast _ ih =>
    cases before with
    | nil =>
      -- The first piece is empty: there is no entry.
      have hnone := eq_nil_of_records (List.cons.inj hend).1
      have hes : es = [] := by
        rcases List.take_eq_nil_iff.1 hnone with hk | hes
        · exact hlast hk
        · exact hes
      rw [hes]
      rfl
    | cons out before =>
      obtain ⟨hout, hrest⟩ := List.cons.inj hend
      have hlen : records (cursor + (es.take k).length) (es.drop k) =
          records (cursor + k) (es.drop k) := by
        rcases Nat.le_total k es.length with hk | hk
        · rw [List.length_take_of_le hk]
        · rw [List.drop_eq_nil_of_le hk]
          rfl
      calc (out :: before).flatten = records cursor (es.take k) ++ before.flatten := by
            rw [List.flatten_cons, hout]
        _ = records cursor (es.take k) ++ records (cursor + k) (es.drop k) := by rw [ih hrest]
        _ = records cursor es := by rw [← hlen, ← records_append, List.take_append_drop]

/-- One of more pieces than entries is empty. -/
theorem Yields.ends (h : Yields es cursor sizes outs) (hmore : es.length < sizes.length) :
    [] ∈ outs := by
  induction h with
  | nil => exact absurd hmore (Nat.not_lt_zero _)
  | @cons es cursor size k sizes outs _ hlast _ ih =>
    by_cases hes : es = []
    · rw [hes, List.take_nil]
      exact List.mem_cons_self
    · have hk : k ≠ 0 := fun hk => hes (hlast hk)
      have hlen := List.length_pos_iff.2 hes
      apply List.mem_cons_of_mem
      apply ih
      rw [List.length_cons] at hmore
      rw [List.length_drop]
      omega

/-- Pieces of the records of a snapshot read back as the snapshot. -/
theorem Yields.readsBack {snapshot : List Dirent} (h : Yields snapshot 0 sizes outs)
    (hentries : ∀ e ∈ snapshot, e.Terminated) (hfew : snapshot.length ≤ kMaxDirEntries) :
    ReadsBack snapshot sizes outs where
  whole := h.whole fun e he => (hentries e he).length_name
  inOrder := by
    intro before after hend
    rw [h.all hend]
    exact readRecords_records hentries hfew
  ends := h.ends

end

/-! ## The stream of a handle -/

/-- The stream that a handle has. -/
def streamOf (s : Libc) (handle : ℤ) : Option ℕ :=
  if kDirHandleBase ≤ handle then
    let slot := (handle - kDirHandleBase).toNat
    if slot < kMaxDirs ∧ (s.dirStreams slot).inUse = true then some slot else none
  else findDirStreamByFd s handle

variable {s s' : Libc} {handle : ℤ} {slot : ℕ} {trace : List (KCall × Answer)}

/-- The stream that a handle has is found again. -/
theorem runs_streamFor (h : streamOf s handle = some slot) :
    Act.Runs (streamFor handle) s [] (.ok slot) s := by
  unfold streamOf at h
  unfold streamFor
  rw [Act.runs_get_bind]
  split at h
  · next hbase =>
    dsimp only at h ⊢
    rw [if_pos hbase]
    obtain ⟨⟨hlt, huse⟩, rfl⟩ := Option.ite_none_right_eq_some.1 h |>.imp_right Option.some.inj
    have hslot : ¬(handle - kDirHandleBase < 0 ∨ (kMaxDirs : ℤ) ≤ handle - kDirHandleBase ∨
        (s.dirStreams (handle - kDirHandleBase).toNat).inUse = false) := by
      rw [huse]
      rintro (hneg | hbig | hfree)
      · omega
      · omega
      · cases hfree
    rw [if_neg hslot]
    exact Act.runs_pure.2 ⟨rfl, rfl, rfl⟩
  · next hbase =>
    dsimp only
    rw [if_neg hbase, h]
    exact Act.runs_pure.2 ⟨rfl, rfl, rfl⟩

/-- The stream that a handle has, in sequence. -/
theorem runs_streamFor_bind {α : Type} {f : ℕ → Sys α} {r : Except Errno α}
    (h : streamOf s handle = some slot) :
    Act.Runs (streamFor handle >>= f) s trace r s' ↔ Act.Runs (f slot) s trace r s' := by
  rw [← List.nil_append trace]
  exact Act.runs_bind_append (runs_streamFor h)

/-- Asking for a path leaves the directory streams. -/
theorem keepsDirs_fdToPath (fd : ℤ) (outsz : ℕ) : KeepsDirs (fdToPath fd outsz) := by
  apply keepsDirs_withHandle
  intro handle
  apply keepsDirs_bind (keepsDirs_syscall _)
  intro n
  split
  · exact keepsDirs_throw _
  · exact keepsDirs_pure _

/-- The first stream that an fd owns is the one that is found. -/
theorem findDirStreamByFd_of_first {fd : ℤ} (h : OwnsStream s slot fd)
    (hfirst : ∀ k < slot, ¬OwnsStream s k fd) : findDirStreamByFd s fd = some slot := by
  have hlt := h.lt
  refine findStream_eq_some.2 ⟨Nat.zero_le _, by omega, ?_, fun k _ hk => ?_⟩
  · rw [h.inUse, h.fromFd, h.owner]
    exact decide_eq_true rfl
  · by_contra hp
    rw [Bool.not_eq_false, Bool.and_eq_true, Bool.and_eq_true, decide_eq_true_eq] at hp
    exact hfirst k hk ⟨by omega, hp.1.1, hp.1.2, hp.2⟩

/-- A handle has the stream that is found or opened for it. -/
theorem streamOf_of_runs {opening : List (KCall × Answer)}
    (h : Act.Runs (streamFor handle) s opening (.ok slot) s') : streamOf s' handle = some slot := by
  unfold streamFor at h
  rw [Act.runs_get_bind] at h
  unfold streamOf
  dsimp only at h ⊢
  split at h
  · next hbase =>
    rw [if_pos hbase]
    split at h
    · obtain ⟨-, habs, -⟩ := Act.runs_throw.1 h
      cases habs
    · next hslot =>
      obtain ⟨-, hr, rfl⟩ := Act.runs_pure.1 h
      obtain rfl := Except.ok.inj hr
      rw [not_or, not_or, Bool.not_eq_false] at hslot
      exact if_pos ⟨by omega, hslot.2.2⟩
  · next hbase =>
    rw [if_neg hbase]
    cases hfind : findDirStreamByFd s handle with
    | some found =>
      rw [hfind] at h
      obtain ⟨-, hr, rfl⟩ := Act.runs_pure.1 h
      rw [hfind, Except.ok.inj hr]
    | none =>
      -- The stream is a new one, and none before it is the fd's.
      rw [hfind] at h
      dsimp only at h
      rcases Act.runs_bind.1 h with ⟨e, -, habs⟩ | ⟨path, mid, first, last, hpath, h, -⟩
      · cases habs
      have hmid : mid.dirStreams = s.dirStreams := keepsDirs_fdToPath _ _ _ _ _ _ hpath
      rw [runs_allocDirStream_bind] at h
      cases hfree : freeStream mid with
      | none =>
        rw [hfree] at h
        obtain ⟨-, habs, -⟩ := Act.runs_throw.1 h
        cases habs
      | some found =>
        rw [hfree] at h
        dsimp only at h
        rw [Option.elim_some, Act.runs_modify_bind] at h
        obtain ⟨-, hr, rfl⟩ := Act.runs_pure.1 h
        obtain rfl := Except.ok.inj hr
        obtain ⟨-, hlt, -⟩ := findStream_eq_some.1 hfree
        generalize hafter : ((mid.setDir slot _).setDir slot _ : Libc) = after
        have hstreams : after.dirStreams = Function.update s.dirStreams slot
            (ownedStream handle path (s.dirStreams slot)) := by
          rw [← hafter, dirStreams_setDir, dirStreams_setDir, Function.update_idem,
            Function.update_self, hmid]
          rfl
        have hself : after.dirStreams slot = ownedStream handle path (s.dirStreams slot) := by
          rw [hstreams, Function.update_self]
        apply findDirStreamByFd_of_first
        · refine ⟨by omega, ?_, ?_, ?_⟩ <;> rw [hself] <;> rfl
        · intro k hk howns
          exact not_ownsStream_of_find hfind k ((ownsStream_update hstreams hk.ne).1 howns)

/-- The owner of a stream keeps it when something else of it changes. -/
theorem streamOf_setDir {f : DirStream → DirStream}
    (huse : (f (s.dirStreams slot)).inUse = (s.dirStreams slot).inUse)
    (hfrom : (f (s.dirStreams slot)).fromFd = (s.dirStreams slot).fromFd)
    (howner : (f (s.dirStreams slot)).ownerFd = (s.dirStreams slot).ownerFd) :
    streamOf (s.setDir slot f) handle = streamOf s handle := by
  have hkept : ∀ k, ((s.setDir slot f).dirStreams k).inUse = (s.dirStreams k).inUse ∧
      ((s.setDir slot f).dirStreams k).fromFd = (s.dirStreams k).fromFd ∧
      ((s.setDir slot f).dirStreams k).ownerFd = (s.dirStreams k).ownerFd := by
    intro k
    rw [dirStreams_setDir]
    by_cases hk : k = slot
    · subst hk
      rw [Function.update_self]
      exact ⟨huse, hfrom, howner⟩
    · rw [Function.update_of_ne hk]
      exact ⟨rfl, rfl, rfl⟩
  unfold streamOf findDirStreamByFd
  simp only [findStream_eq_find, hkept]

/-! ## Reading -/

/-- A read of a stream that has its snapshot. -/
theorem runs_readLoaded (hstream : streamOf s handle = some slot)
    (hloaded : (s.dirStreams slot).loaded = true) (maxSize : ℕ) :
    Act.Runs (sysReadEntries handle maxSize) s [] (.ok ((s.dirStreams slot).fill maxSize).1)
      (s.setDir slot (movedStream ((s.dirStreams slot).fill maxSize).2)) := by
  rw [sysReadEntries_eq, runs_streamFor_bind hstream, runs_readStream, if_pos hloaded]
  exact ⟨rfl, rfl, rfl⟩

/-- Reads of a stream that has its snapshot deliver what is left of it. -/
theorem runs_readEach {sizes : List ℕ} {snapshot : List Dirent}
    {r : Except Errno (List (List Byte))} (hstream : streamOf s handle = some slot)
    (hloaded : (s.dirStreams slot).loaded = true)
    (hsnap : (s.dirStreams slot).entries.take (s.dirStreams slot).count = snapshot)
    (hfits : ∀ e ∈ snapshot, reclen e ≤ 280) (hsizes : ∀ size ∈ sizes, 280 ≤ size)
    (hrun : Act.Runs (readEach handle sizes) s trace r s') :
    ∃ outs, r = .ok outs ∧ Yields (snapshot.drop (s.dirStreams slot).cursor)
      (s.dirStreams slot).cursor sizes outs := by
  induction sizes generalizing s trace r s' with
  | nil =>
    obtain ⟨-, rfl, -⟩ := Act.runs_pure.1 hrun
    exact ⟨[], rfl, .nil⟩
  | cons size sizes ih =>
    set d := s.dirStreams slot with hd
    obtain ⟨n, -, hyield, hsize, hlast⟩ := fill_piece hsnap hfits (hsizes size List.mem_cons_self)
    -- The first read, and the others from the stream that it leaves.
    have hread := runs_readLoaded hstream hloaded size
    rw [← hd, hyield] at hread
    have hafter := (Act.runs_bind_append hread).1 (List.nil_append trace ▸ hrun)
    set next := s.setDir slot (movedStream (d.cursor + n)) with hnext
    have hmoved : next.dirStreams slot = movedStream (d.cursor + n) d := Function.update_self _ _ _
    have hstream' : streamOf next handle = some slot := by
      rw [hnext, streamOf_setDir rfl rfl rfl]
      exact hstream
    have hrest : ∀ {r trace}, Act.Runs (readEach handle sizes) next trace r s' → ∃ outs,
        r = .ok outs ∧ Yields ((snapshot.drop d.cursor).drop n) (d.cursor + n) sizes outs := by
      intro r trace hrun
      have h := ih hstream' (by rw [hmoved]; exact hloaded) (by rw [hmoved]; exact hsnap)
        (fun size hsize => hsizes size (List.mem_cons_of_mem _ hsize)) hrun
      rw [hmoved] at h
      rw [List.drop_drop]
      exact h
    rcases Act.runs_bind.1 hafter with ⟨e, herror, -⟩ | ⟨outs, mid, first, last, houts, hdone, -⟩
    · obtain ⟨outs, habs, -⟩ := hrest herror
      cases habs
    · obtain ⟨-, rfl, rfl⟩ := Act.runs_pure.1 hdone
      obtain ⟨outs', heq, hdelivers⟩ := hrest houts
      obtain rfl := Except.ok.inj heq
      exact ⟨_, rfl, .cons hsize hlast hdelivers⟩

/-! ## From the first read on -/

section
variable {size : ℕ} {sizes : List ℕ} {first more : List (KCall × Answer)}
  {r : Except Errno (List (List Byte))}

/-- Once the stream of the handle is found or opened, reads go on as if it had been there. -/
theorem runs_readEach_opened {s₁ : Libc} (hopen : Act.Runs (streamFor handle) s first (.ok slot) s₁)
    (hrun : Act.Runs (readEach handle (size :: sizes)) s (first ++ more) r s') :
    Act.Runs (readEach handle (size :: sizes)) s₁ more r s' := by
  unfold readEach at hrun ⊢
  rw [sysReadEntries_eq, bind_assoc] at hrun ⊢
  rw [runs_streamFor_bind (streamOf_of_runs hopen)]
  exact (Act.runs_bind_append hopen).1 hrun

/-- Once the snapshot is taken, reads go on as if it had been there. -/
theorem runs_readEach_taken {a : Answer} (hstream : streamOf s handle = some slot)
    (hunloaded : (s.dirStreams slot).loaded = false) (ha : a.ok = true)
    (hrun : Act.Runs (readEach handle (size :: sizes)) s
      ((readdirCall (s.dirStreams slot).path, a) :: more) r s') :
    Act.Runs (readEach handle (size :: sizes)) (s.setDir slot (loadedStream a)) more r s' := by
  have hloaded : ((s.setDir slot (loadedStream a)).dirStreams slot).loaded = true := by
    rw [dirStreams_setDir, Function.update_self]
    rfl
  have hstream' : streamOf (s.setDir slot (loadedStream a)) handle = some slot := by
    rw [streamOf_setDir rfl rfl rfl]
    exact hstream
  unfold readEach at hrun ⊢
  rw [sysReadEntries_eq, bind_assoc, runs_streamFor_bind hstream, bind_assoc, runs_loadStream_bind,
    if_neg (Bool.eq_false_iff.1 hunloaded)] at hrun
  rw [sysReadEntries_eq, bind_assoc, runs_streamFor_bind hstream', bind_assoc,
    runs_loadStream_bind, if_pos hloaded]
  obtain ⟨a', rest, htrace, ⟨hfailed, -⟩ | ⟨-, hafter⟩⟩ := hrun
  · obtain rfl := (Prod.mk.inj (List.cons.inj htrace).1).2
    rw [ha] at hfailed
    cases hfailed
  · obtain ⟨hcall, rfl⟩ := List.cons.inj htrace
    obtain rfl := (Prod.mk.inj hcall).2
    exact hafter

end

/-- Over every sequence of reads of a stream with buffers of at least 280 bytes, from the start of a
snapshot of at most `kMaxDirEntries` entries with terminated names: no read fails, each yields whole
aligned records in its buffer, and up to a read that yields nothing they are the entries of the
snapshot in order. There is such a read among any more reads than there are entries. -/
theorem readEach_readsBack {calls more : List (KCall × Answer)} {snapshot : List Dirent}
    {sizes : List ℕ} {r : Except Errno (List (List Byte))}
    (hstart : Snapshots s handle calls snapshot) (hfew : snapshot.length ≤ kMaxDirEntries)
    (hentries : ∀ e ∈ snapshot, e.Terminated)
    (hsizes : ∀ size ∈ sizes, 280 ≤ size)
    (hrun : Act.Runs (readEach handle sizes) s (calls ++ more) r s') :
    ∃ outs, r = .ok outs ∧ ReadsBack snapshot sizes outs := by
  have hfits : ∀ e ∈ snapshot, reclen e ≤ 280 := fun e he => reclen_le (hentries e he).length_name
  cases sizes with
  | nil =>
    obtain ⟨-, rfl, -⟩ := Act.runs_pure.1 hrun
    exact ⟨[], rfl, Yields.nil.readsBack hentries hfew⟩
  | cons size sizes =>
    -- A stream at the start of the snapshot, from which the reads go on.
    obtain ⟨s₁, slot, hstream, hloaded, hcursor, hsnap, hrun⟩ : ∃ s₁ slot,
        streamOf s₁ handle = some slot ∧ (s₁.dirStreams slot).loaded = true ∧
          (s₁.dirStreams slot).cursor = 0 ∧
          (s₁.dirStreams slot).entries.take (s₁.dirStreams slot).count = snapshot ∧
          Act.Runs (readEach handle (size :: sizes)) s₁ more r s' := by
      cases hstart with
      | @loaded slot opening s₁ hopen hloaded hcursor =>
        exact ⟨s₁, slot, streamOf_of_runs hopen, hloaded, hcursor, rfl,
          runs_readEach_opened hopen hrun⟩
      | @taken slot opening s₁ a hopen hunloaded ha =>
        have hstream := streamOf_of_runs hopen
        rw [List.append_assoc] at hrun
        have htaken := runs_readEach_taken hstream hunloaded ha (runs_readEach_opened hopen hrun)
        have hself : (s₁.setDir slot (loadedStream a)).dirStreams slot =
            loadedStream a (s₁.dirStreams slot) := Function.update_self _ _ _
        refine ⟨s₁.setDir slot (loadedStream a), slot, ?_, ?_, ?_, ?_, htaken⟩
        · rw [streamOf_setDir rfl rfl rfl]
          exact hstream
        · rw [hself]
          rfl
        · rw [hself]
          rfl
        · rw [List.length_map, List.length_range] at hfew
          rw [hself]
          show ((List.range kMaxDirEntries).map (direntAt a.block)).take (u32 a.ret) = _
          rw [← List.map_take, List.take_range, Nat.min_eq_left hfew]
    obtain ⟨outs, rfl, hyields⟩ := runs_readEach hstream hloaded hsnap hfits hsizes hrun
    rw [hcursor, List.drop_zero] at hyields
    exact ⟨outs, rfl, hyields.readsBack hentries hfew⟩

/-- A directory with one entry is opened and read twice: the first read yields the entry, the second
nothing. -/
theorem readEach_readsBack_one : ∃ outs,
    ((readEach kDirHandleBase [280, 280]).exec (initialLibc.setDir 0 (openedStream dirA))
        fun _ => listAnswer 1).1.1 = .ok outs ∧
      ReadsBack [direntAt oneEntry 0] [280, 280] outs := by
  have hstream : streamOf (initialLibc.setDir 0 (openedStream dirA)) kDirHandleBase = some 0 := rfl
  have hstart : Snapshots (initialLibc.setDir 0 (openedStream dirA)) kDirHandleBase
      ([] ++ [(readdirCall dirA, listAnswer 1)]) [direntAt oneEntry 0] :=
    .taken (runs_streamFor hstream) rfl rfl
  have hentry : (direntAt oneEntry 0).Terminated := ⟨by decide, by decide, by decide⟩
  refine readEach_readsBack hstart (by decide) ?_ ?_
    (Act.exec_runs (readEach kDirHandleBase [280, 280]) _ fun _ => listAnswer 1)
  · intro e he
    rw [List.mem_singleton.1 he]
    exact hentry
  · intro size hsize
    simp only [List.mem_cons, List.not_mem_nil, or_false, or_self] at hsize
    omega

end IUserApps.Sysdeps
