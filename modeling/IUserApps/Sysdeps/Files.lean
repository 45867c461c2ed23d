import IUserApps.Sysdeps.Ioctl

/-!
# Calls on files

The sysdeps that work on an open file or directory, and the `*at` family, which works on a path
relative to one.
-/

namespace IUserApps.Sysdeps

open Interact

/-- The offset is counted from the beginning. -/
def kSeekSet : ℤ := 0
/-- The offset is counted from the current one. -/
def kSeekCur : ℤ := 1

/-- A 64-bit number in memory. -/
def get64 (b : Block) (offset : ℕ) : ℕ :=
  (List.range 8).foldr (fun i n => (b (offset + i)).toNat + 256 * n) 0

/-- A 16-bit number in memory. -/
def get16 (b : Block) (offset : ℕ) : ℕ := (b offset).toNat + 256 * (b (offset + 1)).toNat

/-! ## One call on a handle -/

/-- A sysdep that makes one call on the handle of its fd. -/
def handleCall {α : Type} (fd : ℤ) (number : Syscall) (args : List ℤ) (data : List (List Byte))
    (result : Answer → α) : Sys α :=
  withHandle fd fun handle => do
    let ret ← syscall (kcallWith number [handle] args data)
    pure (result ret)

/-- `Isatty`. -/
def sysIsatty (fd : ℤ) : Sys Unit :=
  withHandle fd fun handle => do
    let ret ← Act.ask (kcall .ioctl [handle] [TIOCGWINSZ])
    if scError ret.ret ≠ 0 then Act.throw ENOTTY else pure ()

/-- `Write`: the count. -/
def sysWrite (fd : ℤ) (buffer : List Byte) : Sys ℤ :=
  handleCall fd .write [] [buffer] (·.ret)

/-- `Read`: the count and the bytes read. -/
def sysRead (fd : ℤ) (size : ℕ) : Sys (ℤ × List Byte) :=
  handleCall fd .read [size] [] fun ret => (ret.ret, (List.range (u64 ret.ret)).map ret.block)

/-- `Seek`: the new offset. -/
def sysSeek (fd offset whence : ℤ) : Sys ℤ :=
  handleCall fd .seek [offset, whence] [] (·.ret)

/-- `Fchmod`. -/
def sysFchmod (fd mode : ℤ) : Sys Unit := handleCall fd .chmod [mode, 1] [] fun _ => ()

/-- `Ftruncate`. -/
def sysFtruncate (fd size : ℤ) : Sys Unit := handleCall fd .truncate [size, 1] [] fun _ => ()

/-- `Fsync`. -/
def sysFsync (fd : ℤ) : Sys Unit := handleCall fd .fsync [] [] fun _ => ()

/-- `Fdatasync` is the same call as `Fsync`. -/
def sysFdatasync (fd : ℤ) : Sys Unit := handleCall fd .fsync [] [] fun _ => ()

/-- `Fstatvfs`: the kernel's record. -/
def sysFstatvfs (fd : ℤ) : Sys Block := handleCall fd .statfs [1] [] (·.block)

/-! ## Several calls -/

/-- `Pread`, which moves the offset there and back: the count and the bytes read. -/
def sysPread (fd : ℤ) (n : ℕ) (off : ℤ) : Sys (ℤ × List Byte) :=
  withHandle fd fun handle => do
    let saved ← syscall (kcall .seek [handle] [0, kSeekCur])
    let _ ← syscall (kcall .seek [handle] [off, kSeekSet])
    let r ← Act.ask (kcall .read [handle] [n])
    let rerr := scError r.ret
    let _ ← Act.ask (kcall .seek [handle] [saved.ret, kSeekSet])
    if rerr ≠ 0 then Act.throw rerr
    else pure (r.ret, (List.range (u64 r.ret)).map r.block)

/-- `Pwrite`, which moves the offset there and back: the count. -/
def sysPwrite (fd : ℤ) (buf : List Byte) (off : ℤ) : Sys ℤ :=
  withHandle fd fun handle => do
    let saved ← syscall (kcall .seek [handle] [0, kSeekCur])
    let _ ← syscall (kcall .seek [handle] [off, kSeekSet])
    let w ← Act.ask (kcallWith .write [handle] [] [buf])
    let werr := scError w.ret
    let _ ← Act.ask (kcall .seek [handle] [saved.ret, kSeekSet])
    if werr ≠ 0 then Act.throw werr else pure w.ret

/-- The bytes up to the first NUL. -/
def cstring (bytes : List Byte) : List Byte := bytes.takeWhile (· ≠ 0#8)

/-- `Fchdir`, by the path of the directory. -/
def sysFchdir (fd : ℤ) : Sys Unit :=
  withHandle fd fun handle => do
    let n ← syscall (kcall .fdPath [handle] [256])
    let _ ← syscall (kcallWith .chdir [] [] [cstring ((List.range 256).map n.block)])
    pure ()

/-- `Ttyname`: the path of the terminal. -/
def sysTtyname (fd : ℤ) (size : ℕ) : Sys (List Byte) :=
  withHandle fd fun handle => do
    let ret ← Act.ask (kcall .ioctl [handle] [TIOCGWINSZ])
    if scError ret.ret ≠ 0 then
      Act.throw ENOTTY
    else
      let n ← Act.ask (kcall .fdPath [handle] [size])
      if scError n.ret ≠ 0 then Act.throw ENOTTY
      else pure (cstring ((List.range size).map n.block))

/-- The mapping is of no file. -/
def MAP_ANONYMOUS : ℕ := 0x20

/-- `VmMap`: an anonymous mapping, or the file's. -/
def sysVmMap (hint : ℤ) (size : ℕ) (prot : ℤ) (flags : ℕ) (fd offset : ℤ) : Sys ℤ :=
  if flags &&& MAP_ANONYMOUS ≠ 0 ∨ fd < 0 then do
    let ret ← syscall (kcall .mmap [] [hint, size, prot])
    pure ret.ret
  else
    handleCall fd .mmapFile [hint, size, prot, flags, offset] [] (·.ret)

/-- `Fadvise` accepts its advice and ignores it. -/
def sysFadvise (_fd _offset _length _advice : ℤ) : Sys Unit := pure ()

/-! ## Reading a directory -/

/-- The kernel's entries are 272 bytes: the name, the inode and the type. -/
def direntAt (b : Block) (i : ℕ) : Dirent :=
  { name := cstring ((List.range 256).map fun k => b (272 * i + k))
    inode := get64 b (272 * i + 256)
    type := get16 b (272 * i + 264) + 65536 * get16 b (272 * i + 266) }

/-- The type that a directory record has for the kernel's. -/
def dtFromFiletype (type : ℕ) : ℕ :=
  match type with
  | 1 => 4    -- kFtDirectory
  | 0 => 8    -- kFtRegular
  | 2 => 2    -- kFtCharDevice
  | 3 => 6    -- kFtBlockDevice
  | 4 => 10   -- kFtSymlink
  | 5 => 1    -- kFtPipe
  | 6 => 12   -- kFtSocket
  | _ => 0

/-- A number in little-endian bytes. -/
def leBytes : ℕ → ℕ → List Byte
  | 0, _ => []
  | k + 1, n => BitVec.ofNat 8 n :: leBytes k (n / 256)

/-- The number in little-endian bytes. -/
def leNat : List Byte → ℕ
  | [] => 0
  | b :: bytes => b.toNat + 256 * leNat bytes

/-- Where the name begins in a directory record. -/
def namePrefix : ℕ := 19

/-- The length of an entry's record, rounded up to 8. -/
def reclen (e : Dirent) : ℕ := (namePrefix + e.name.length + 1 + 7) / 8 * 8

/-- The record of the entry at the cursor. -/
def direntRecord (e : Dirent) (cursor : ℕ) : List Byte :=
  leBytes 8 e.inode ++ leBytes 8 (cursor + 1) ++ leBytes 2 (reclen e) ++
    leBytes 1 (dtFromFiletype e.type) ++ e.name ++
    List.replicate (reclen e - (namePrefix + e.name.length)) 0#8

/-- Fills the buffer with whole records: the bytes, and the cursor afterwards. -/
def fillRecords (maxSize : ℕ) : List Dirent → ℕ → List Byte → List Byte × ℕ
  | [], cursor, out => (out, cursor)
  | e :: entries, cursor, out =>
    if maxSize < out.length + reclen e then (out, cursor)
    else fillRecords maxSize entries (cursor + 1) (out ++ direntRecord e cursor)

/-- A free directory stream, taken for a path. -/
def allocDirStream (path : List Byte) : Sys (Option ℕ) := do
  let s ← Act.get
  match findStream s.dirStreams (fun d => !d.inUse) kMaxDirs 0 with
  | some slot =>
    Act.modify fun s => s.setDir slot fun d =>
      { d with
        inUse := true
        loaded := false
        fromFd := false
        ownerFd := 0
        cursor := 0
        count := 0
        path := path.take 255 }
    pure (some slot)
  | none => pure none

/-- `OpenDir`: the handle of a new stream. -/
def sysOpenDir (path : Option (List Byte)) : Sys ℤ :=
  match path with
  | none => Act.throw EINVAL
  | some path => do
    match ← allocDirStream path with
    | some slot => pure (slot + kDirHandleBase)
    | none => Act.throw EMFILE

/-- The stream that a handle reads from. An fd gets one on its first read. -/
def streamFor (handle : ℤ) : Sys ℕ := do
  let s ← Act.get
  if kDirHandleBase ≤ handle then
    let slot := handle - kDirHandleBase
    if slot < 0 ∨ (kMaxDirs : ℤ) ≤ slot ∨ (s.dirStreams slot.toNat).inUse = false then
      Act.throw EBADF
    else
      pure slot.toNat
  else
    match findDirStreamByFd s handle with
    | some slot => pure slot
    | none =>
      let p ← fdToPath handle 256
      match ← allocDirStream p with
      | some slot =>
        Act.modify fun s => s.setDir slot fun d =>
          let owned : DirStream := { d with fromFd := true, ownerFd := handle }
          owned
        pure slot
      | none => Act.throw EMFILE

/-- Takes the snapshot of a stream's directory on its first read. -/
def loadStream (slot : ℕ) : Sys Unit := do
  let s ← Act.get
  if (s.dirStreams slot).loaded then
    pure ()
  else
    let ret ← syscall (kcallWith .readdir [] [kMaxDirEntries] [(s.dirStreams slot).path])
    Act.modify fun s => s.setDir slot fun d =>
      { d with
        count := u32 ret.ret
        cursor := 0
        loaded := true
        entries := (List.range kMaxDirEntries).map (direntAt ret.block) }

/-- `ReadEntries`: the records of the next entries, as many as fit. -/
def sysReadEntries (handle : ℤ) (maxSize : ℕ) : Sys (List Byte) := do
  let slot ← streamFor handle
  loadStream slot
  let s ← Act.get
  let dir := s.dirStreams slot
  let (out, cursor) :=
    fillRecords maxSize ((dir.entries.take dir.count).drop dir.cursor) dir.cursor []
  Act.modify fun s => s.setDir slot fun d =>
    let moved : DirStream := { d with cursor := cursor }
    moved
  pure out

/-! ## Paths -/

/-- A sysdep that resolves a path against a directory fd and makes one call with it. -/
def atCall {α : Type} (dirfd : ℤ) (path : Option (List Byte)) (number : Syscall) (args : List ℤ)
    (result : Answer → α) : Sys α := do
  let p ← atResolve dirfd path kAtBuffer
  let ret ← syscall (kcallWith number [] args [p])
  pure (result ret)

/-- A sysdep that resolves two paths and makes one call with them. -/
def atCall2 (olddirfd : ℤ) (oldPath : Option (List Byte)) (newdirfd : ℤ)
    (newPath : Option (List Byte)) (number : Syscall) : Sys Unit := do
  let op ← atResolve olddirfd oldPath kAtBuffer
  let np ← atResolve newdirfd newPath kAtBuffer
  let _ ← syscall (kcallWith number [] [] [op, np])
  pure ()

section
variable (dirfd : ℤ) (path : Option (List Byte))

/-- `Mkdirat`. -/
def sysMkdirat (mode : ℤ) : Sys Unit := atCall dirfd path .mkdir [mode] fun _ => ()

/-- `Unlinkat` removes a directory. -/
def AT_REMOVEDIR : ℕ := 0x200

/-- `Unlinkat`. -/
def sysUnlinkat (flags : ℕ) : Sys Unit :=
  atCall dirfd path (if flags &&& AT_REMOVEDIR ≠ 0 then .rmdir else .unlink) [] fun _ => ()

/-- `Fchmodat`. -/
def sysFchmodat (mode : ℤ) : Sys Unit := atCall dirfd path .chmod [mode, 0] fun _ => ()

/-- `Readlinkat`: the count and the bytes of the target. -/
def sysReadlinkat (maxSize : ℕ) : Sys (ℤ × List Byte) :=
  atCall dirfd path .readlink [maxSize] fun ret =>
    (ret.ret, (List.range (u64 ret.ret)).map ret.block)

/-- `Mknodat`. -/
def sysMknodat (mode dev : ℤ) : Sys Unit :=
  atCall dirfd path .mknod [u32 mode, u32 dev] fun _ => ()

/-- The mode bits of a pipe. -/
def kSIFIFO : ℕ := 0x1000

/-- `Mkfifoat`. -/
def sysMkfifoat (mode : ℤ) : Sys Unit :=
  atCall dirfd path .mknod [((u32 mode &&& 0o7777) ||| kSIFIFO : ℕ), 0] fun _ => ()

/-- `Faccessat`. -/
def sysFaccessat (mode : ℤ) : Sys Unit := atCall dirfd path .access [mode] fun _ => ()

/-- `Symlinkat`, whose target is not resolved. -/
def sysSymlinkat (target : List Byte) : Sys Unit := do
  let lp ← atResolve dirfd path kAtBuffer
  let _ ← syscall (kcallWith .symlink [] [] [target, lp])
  pure ()

/-- `AT_EMPTY_PATH`: the call works on the fd itself. -/
def kAtEmptyPath : ℕ := 0x1000

/-- `Fchownat`, which works on the fd itself with `AT_EMPTY_PATH`. -/
def sysFchownat (owner group : ℤ) (flags : ℕ) : Sys Unit :=
  if flags &&& kAtEmptyPath ≠ 0 then
    handleCall dirfd .chown [1, owner, group, flags] [] fun _ => ()
  else
    atCall dirfd path .chown [0, owner, group, flags] fun _ => ()

end

/-- `Renameat`. -/
def sysRenameat (olddirfd : ℤ) (oldPath : Option (List Byte)) (newdirfd : ℤ)
    (newPath : Option (List Byte)) : Sys Unit :=
  atCall2 olddirfd oldPath newdirfd newPath .rename

/-- `Linkat`. -/
def sysLinkat (olddirfd : ℤ) (oldPath : Option (List Byte)) (newdirfd : ℤ)
    (newPath : Option (List Byte)) : Sys Unit :=
  atCall2 olddirfd oldPath newdirfd newPath .link

/-- The call works on a link itself. -/
def AT_SYMLINK_NOFOLLOW : ℕ := 0x100

/-- The call that reads the attributes of a path. -/
def statCall (flags : ℕ) : Syscall := if flags &&& AT_SYMLINK_NOFOLLOW ≠ 0 then .lstat else .stat

/-- The target of `Stat` (`fsfd_target`). -/
inductive FsfdTarget
  | path
  | fd
  | fdPath
deriving DecidableEq, Repr

/-- `Stat`: the kernel's record. -/
def sysStat (target : FsfdTarget) (fd : ℤ) (path : Option (List Byte)) (flags : ℕ) : Sys Block :=
  match target with
  | .path => do
    let ret ← syscall (kcallWith (statCall flags) [] [] path.toList)
    pure ret.block
  | .fd => handleCall fd .fstat [] [] (·.block)
  | .fdPath => atCall fd path (statCall flags) [] (·.block)

/-- A time to set: the time of the call, none, or a second. -/
inductive UTime
  | now
  | omit
  | secs (n : ℤ)
deriving DecidableEq, Repr

/-- The second that is set. -/
def UTime.value (now existing : ℤ) : UTime → ℤ
  | .now => now
  | .omit => existing
  | .secs n => n

/-- What `Utimensat` works on: the handle of an fd, or a path. -/
def utimeTarget (dirfd : ℤ) : Option (List Byte) → Sys (List ℤ × List (List Byte))
  | none => withHandle dirfd fun handle => pure ([handle], [])
  | some path => do
    let p ← atResolve dirfd (some path) kAtBuffer
    pure ([], [p])

/-- `Utimensat`; without a path it works on the fd. -/
def sysUtimensat (dirfd : ℤ) (path : Option (List Byte)) (times : Option (UTime × UTime))
    (flags : ℕ) : Sys Unit := do
  let (handles, paths) ← utimeTarget dirfd path
  let now ← Act.ask (kcall .getunixtime [] [])
  let (atime, mtime) := times.getD (.now, .now)
  let (existAtime, existMtime) ←
    if atime = .omit ∨ mtime = .omit then do
      let st ← Act.ask
        (kcallWith (if path.isNone then .fstat else statCall flags) handles [] paths)
      pure (if scError st.ret = 0 then (int64 (get64 st.block 64), int64 (get64 st.block 72))
        else (now.ret, now.ret))
    else
      pure (now.ret, now.ret)
  let args := [atime.value now.ret existAtime, mtime.value now.ret existMtime,
    if path.isNone then 1 else 0]
  let _ ← syscall (kcallWith .utime handles args paths)
  pure ()

/-! ## Waiting -/

/-- There is something to read. -/
def kPollIn : ℕ := 1
/-- There is room to write. -/
def kPollOut : ℕ := 4
/-- There is an error. -/
def POLLERR : ℕ := 8
/-- The other side has hung up. -/
def POLLHUP : ℕ := 16

/-- What the kernel reports of the poll descriptor at a place. -/
def reventsAt (b : Block) (i : ℕ) : ℕ := get16 b (16 * i + 10)

/-- The fds below `numFds` in a set, from `fd` on, with their handles; at most 64 in all. -/
def selectFds (table : FdTable) (wanted : ℕ → ℕ) : ℕ → ℕ → List (ℕ × ℤ) →
    Except Errno (List (ℕ × ℤ))
  | 0, _, found => .ok found
  | n + 1, fd, found =>
    if 64 ≤ found.length then .ok found
    else if wanted fd = 0 then selectFds table wanted n (fd + 1) found
    else
      let handle := handleForFd table fd
      if handle < 0 then .error EBADF
      else selectFds table wanted n (fd + 1) (found ++ [(fd, handle)])

/-- The events that the sets ask for. -/
def wantedEvents (reads writes : Option (ℕ → Bool)) (fd : ℕ) : ℕ :=
  (if (reads.getD fun _ => false) fd then kPollIn else 0) |||
    (if (writes.getD fun _ => false) fd then kPollOut else 0)

/-- The fds of a poll with an event, when there is a set to store them in. -/
def hits (set : Option (ℕ → Bool)) (event : ℕ) (found : List (ℕ × ℤ)) (b : Block) :
    List ℕ :=
  if set.isNone then []
  else ((found.zip (List.range found.length)).filter fun p =>
    reventsAt b p.2 &&& event ≠ 0).map (·.1.1)

/-- `sec * 1000 + nsec / 1000000` in a `long`. -/
def toMs (sec nsec : ℤ) : ℤ := int64 (int64 (sec * 1000) + nsec.tdiv 1000000)

/-- The timeout in milliseconds, -1 to wait for ever. -/
def timeoutMs : Option (ℤ × ℤ) → ℤ
  | none => -1
  | some (sec, nsec) => toMs sec nsec

/-- `Pselect`: the fds left in the read and the write set, and the number of events. -/
def sysPselect (numFds : ℕ) (reads writes : Option (ℕ → Bool)) (timeout : Option (ℤ × ℤ)) :
    Sys (List ℕ × List ℕ × ℕ) := do
  let s ← Act.get
  match selectFds s.fdTable (wantedEvents reads writes) numFds 0 [] with
  | .error e => Act.throw e
  | .ok found =>
    if found = [] then
      pure ([], [], 0)
    else
      let events := found.map fun p => (wantedEvents reads writes p.1 : ℤ)
      let ready ← syscall
        (kcall .poll (found.map (·.2)) (timeoutMs timeout :: events))
      let readable := hits reads kPollIn found ready.block
      let writable := hits writes kPollOut found ready.block
      pure (readable, writable,
        ((found.map (·.1)).filter fun fd => fd ∈ readable || fd ∈ writable).length)

/-- `Poll`: the events of each fd and the number of ready ones. -/
def sysPoll (fds : List (ℤ × ℕ)) (timeout : ℤ) : Sys (List ℕ × ℤ) :=
  if fds = [] then
    pure ([], 0)
  else if 64 < fds.length then
    Act.throw EINVAL
  else do
    let s ← Act.get
    let handles := fds.map fun p =>
      let handle := handleForFd s.fdTable p.1
      if p.1 < 0 ∨ handle < 0 then -1 else handle
    let ready ← syscall (kcall .poll handles (timeout :: fds.map fun p => (p.2 : ℤ)))
    pure ((List.range fds.length).map (reventsAt ready.block), int32 ready.ret)

end IUserApps.Sysdeps
