import IUserApps.Sysdeps.Table

/-!
# Opening, duplicating and closing

The sysdeps that make and release fds, as in `sysdeps.cpp`, apart from those that take them from
a message or an ioctl. Each asks the kernel for one or two handles and registers them; what happens
when the table is full differs between them.
-/

namespace IUserApps.Sysdeps

open Interact

/-! ## Paths relative to a directory fd -/

/-- `AT_FDCWD`: the working directory in place of an fd. -/
def kAtFdCwd : ℤ := -100

/-- The size of the path buffers of the `*at` calls. -/
def kAtBuffer : ℕ := 512

/-- Appends bytes to a buffer of `size` bytes as long as one byte is left for the NUL. -/
def appendTo (size : ℕ) (out bytes : List Byte) : List Byte :=
  out ++ bytes.take (size - 1 - out.length)

/-- The path that a `*at` call works on. -/
def atResolve (dirfd : ℤ) (path : Option (List Byte)) (outsz : ℕ) : Sys (List Byte) :=
  match path with
  | none => Act.throw EINVAL
  | some path =>
    if path.head? = some 47#8 ∨ dirfd = kAtFdCwd then
      pure path
    else
      withHandle dirfd fun handle => do
        let n ← syscall (kcall .fdPath [handle] [256])
        let out := appendTo outsz [] ((List.range n.ret.toNat).map n.block)
        let out := if out.getLast? = some 47#8 then out else appendTo outsz out [47#8]
        pure (appendTo outsz out path)

/-- The absolute path of an open fd. -/
def fdToPath (fd : ℤ) (outsz : ℕ) : Sys (List Byte) :=
  withHandle fd fun h => do
    let n ← syscall (kcall .fdPath [h] [outsz])
    if n.ret ≤ 0 ∨ (outsz : ℤ) ≤ n.ret then
      Act.throw EINVAL
    else
      pure ((List.range n.ret.toNat).map n.block)

/-- The first of `n` directory streams from `i` on with a property. -/
def findStream (streams : ℕ → DirStream) (p : DirStream → Bool) : ℕ → ℕ → Option ℕ
  | 0, _ => none
  | n + 1, i => if p (streams i) then some i else findStream streams p n (i + 1)

/-- The directory stream that an fd owns. -/
def findDirStreamByFd (s : Libc) (fd : ℤ) : Option ℕ :=
  findStream s.dirStreams (fun d => d.inUse && d.fromFd && d.ownerFd = fd) kMaxDirs 0

/-- Changes one directory stream. -/
def Libc.setDir (s : Libc) (slot : ℕ) (f : DirStream → DirStream) : Libc :=
  { s with dirStreams := Function.update s.dirStreams slot (f (s.dirStreams slot)) }

/-- A directory stream is no part of the table of fds. -/
@[simp] theorem fdTable_setDir (s : Libc) (slot : ℕ) (f : DirStream → DirStream) :
    (s.setDir slot f).fdTable = s.fdTable := rfl

/-! ## One handle -/

/-- `Open`. -/
def sysOpen (path : List Byte) (flags mode : ℤ) : Sys ℕ := do
  let ret ← syscall (kcallWith .open [] [flags, mode] [path])
  newFd ret.ret 3

/-- `Openat`. -/
def sysOpenat (dirfd : ℤ) (path : Option (List Byte)) (flags mode : ℤ) : Sys ℕ := do
  let p ← atResolve dirfd path kAtBuffer
  let ret ← syscall (kcallWith .open [] [flags, mode] [p])
  newFd ret.ret 3

/-- `Dup`. -/
def sysDup (fd : ℤ) : Sys ℕ :=
  withHandle fd fun handle => do
    let ret ← syscall (kcall .dup [handle] [])
    newFd ret.ret 3

/-- `Socket`. -/
def sysSocket (family type protocol : ℤ) : Sys ℕ := do
  let ret ← syscall (kcall .socket [] [family, type, protocol])
  newFd ret.ret 3

/-- `Accept`. -/
def sysAccept (fd : ℤ) : Sys ℕ :=
  withHandle fd fun handle => do
    let ret ← syscall (kcall .accept [handle] [])
    newFd ret.ret 3

/-- The requests of `Fcntl` that make a new fd. -/
def isDupFd (request : ℤ) : Bool := request = F_DUPFD || request = F_DUPFD_CLOEXEC

/-- `Fcntl`, with the result stored. -/
def sysFcntl (fd request arg : ℤ) : Sys ℤ :=
  withHandle fd fun handle => do
    let ret ← syscall (kcall .fcntl [handle] [request, arg])
    if isDupFd request then
      let newfd ← newFd ret.ret (int32 arg)
      pure newfd
    else
      pure (int32 ret.ret)

/-- `Dup2`, which duplicates onto what `newfd` holds, or anew into a free slot. -/
def sysDup2 (fd newfd : ℤ) : Sys Unit :=
  withHandle fd fun handle => do
    if newfd < 0 ∨ (kMaxFd : ℤ) ≤ newfd then
      Act.throw EBADF
    else
      let s ← Act.get
      let targetHandle := s.fdTable newfd.toNat
      let target := if targetHandle ≠ 0 then targetHandle else newfd
      let ret ← syscall (if targetHandle ≠ 0 ∨ newfd < 3 then kcall .dup2 [handle, target] []
        else kcall .dup [handle] [])
      registerFdAt newfd ret.ret

/-! ## Two handles -/

/-- Closes a handle and frees the slot it was registered in, if it was. -/
def closeRegistered (slot : Option ℕ) (handle : ℤ) : Sys Unit :=
  match slot with
  | some fd => do
    let _ ← Act.ask (kcall .close [handle] [])
    Act.modify fun s => s.setFd fd 0
  | none => pure ()

/-- `Pipe`, which closes a handle only if it was registered. -/
def sysPipe : Sys (ℕ × ℕ) := do
  let ret ← syscall (kcall .pipe [] [])
  let handle0 := ret.handles.getD 0 0
  let handle1 := ret.handles.getD 1 0
  let r ← registerFd handle0
  let w ← registerFd handle1
  match r, w with
  | some r, some w => pure (r, w)
  | r, w =>
    closeRegistered r handle0
    closeRegistered w handle1
    Act.throw EMFILE

/-- `Socketpair`, which closes both handles. -/
def sysSocketpair (domain typeAndFlags proto : ℤ) : Sys (ℕ × ℕ) := do
  let ret ← syscall (kcall .socketpair [] [domain, typeAndFlags, proto])
  let handle0 := ret.handles.getD 0 0
  let handle1 := ret.handles.getD 1 0
  let a ← registerFd handle0
  let b ← match a with
    | some _ => registerFd handle1
    | none => pure none
  match a, b with
  | some a, some b => pure (a, b)
  | a, _ =>
    Act.modify fun s => a.elim s fun fd => s.setFd fd 0
    let _ ← Act.ask (kcall .close [handle0] [])
    let _ ← Act.ask (kcall .close [handle1] [])
    Act.throw EMFILE

/-! ## Closing -/

/-- Frees a directory stream that the fd owns. -/
def releaseDir (fd : ℤ) (s : Libc) : Libc :=
  (findDirStreamByFd s fd).elim s fun slot =>
    s.setDir slot fun d =>
      let freed : DirStream := { d with inUse := false, loaded := false, fromFd := false }
      freed

/-- Frees an opened directory by its handle. -/
def closeDir (slot : ℤ) : Sys Unit := do
  let s ← Act.get
  if slot < 0 ∨ (kMaxDirs : ℤ) ≤ slot ∨ (s.dirStreams slot.toNat).inUse = false then
    Act.throw EBADF
  else
    Act.modify fun s => s.setDir slot.toNat fun d =>
      let freed : DirStream := { d with inUse := false, loaded := false }
      freed

/-- `Close`. The standard streams are not closed. -/
def sysClose (fd : ℤ) : Sys Unit :=
  if kDirHandleBase ≤ fd then
    closeDir (fd - kDirHandleBase)
  else do
    Act.modify (releaseDir fd)
    withHandle fd fun handle => do
      if fd < 3 then
        pure ()
      else
        let _ ← syscall (kcall .close [handle] [])
        Act.modify fun s => s.setFd fd.toNat 0

/-- Releasing the stream of an fd leaves the table of fds. -/
@[simp] theorem fdTable_releaseDir (fd : ℤ) (s : Libc) :
    (releaseDir fd s).fdTable = s.fdTable := by
  unfold releaseDir
  cases findDirStreamByFd s fd <;> rfl

end IUserApps.Sysdeps
