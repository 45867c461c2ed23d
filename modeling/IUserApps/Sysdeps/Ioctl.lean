import IUserApps.Sysdeps.Calls

/-!
# Ioctls with fds

`Ioctl`, which turns the fds in some structs into the kernel's slots for the call, puts them back
afterwards and registers the slots that the kernel handed out.
-/

namespace IUserApps.Sysdeps

open Interact

/-- A table fd as the kernel's slot, -1 when it is not a file. -/
def slotForFd (table : FdTable) (fd : ℤ) : ℤ :=
  let handle := handleForFd table fd
  if handle ≤ 0 ∨ handle / 2^48 ≠ 1 then -1 else int32 (handle % 2^32)

/-- A slot that the kernel handed out as a new fd, -1 when there is none. -/
def fdForSlot (slot : ℤ) : Sys ℤ :=
  if slot < 0 then pure (-1)
  else do
    let handle := kFileHandleType + slot
    match ← registerFd handle with
    | some fd => pure fd
    | none =>
      let _ ← Act.ask (kcall .close [handle] [])
      pure (-1)

/-- The struct with the slots of its in-fds, and the values saved from it. -/
def translateIn (table : FdTable) : List FdField → Block → Block × List (FdField × ℤ)
  | [], bytes => (bytes, [])
  | f :: fields, bytes =>
    let value := get32 bytes f.offset
    let bytes' := if f.out then bytes else put32 bytes f.offset (slotForFd table value)
    let (translated, saved) := translateIn table fields bytes'
    (translated, (f, value) :: saved)

/-- The struct that the kernel is given. -/
def ioctlSent (table : FdTable) (request : ℕ) (bytes : Block) : Block :=
  let translated := (translateIn table (fieldsOf request) bytes).1
  if isExecbuffer request && execFenceIn translated then
    put32 translated 56 (slotForFd table (get32 translated 56))
  else translated

/-- Puts the saved fds back and registers the slots in the out fields. -/
def restoreFields (failed : Bool) : List (FdField × ℤ) → Block → Sys (Block × Bool)
  | [], bytes => pure (bytes, false)
  | (f, value) :: saved, bytes =>
    if f.out = false then
      restoreFields failed saved (put32 bytes f.offset value)
    else if failed = false then do
      let fd ← fdForSlot (get32 bytes f.offset)
      let bytes := put32 bytes f.offset fd
      if fd < 0 then pure (bytes, true) else restoreFields failed saved bytes
    else
      restoreFields failed saved bytes

/-- Puts an execbuffer's in-fence back and registers its out-fence. -/
def restoreExec (failed : Bool) (sent : Block) (fenceIn : ℤ) (bytes : Block) :
    Sys (Block × Bool) :=
  let bytes := put32 bytes 56 fenceIn
  if failed = false ∧ execFenceOut sent = true then do
    let fd ← fdForSlot (get32 bytes 60)
    pure (put32 bytes 60 fd, fd < 0)
  else
    pure (bytes, false)

/-- What is left to do with the caller's struct after the kernel's answer: the struct, and whether
an fd was missing. -/
def ioctlAfter (table : FdTable) (request : ℕ) (bytes : Block) (ret : Answer) :
    Sys (Block × Bool) := do
  let failed := decide (scError ret.ret ≠ 0)
  let (restored, full) ← restoreFields failed (translateIn table (fieldsOf request) bytes).2 ret.block
  if full then
    pure (restored, true)
  else if isExecbuffer request then
    restoreExec failed (ioctlSent table request bytes) (get32 bytes 56) restored
  else
    pure (restored, false)

/-- `Ioctl`: the caller's struct afterwards, and the result or the error number returned. -/
def sysIoctl (fd : ℤ) (request : ℕ) (arg : Option Block) :
    Sys (Option Block × Except Errno ℤ) :=
  withHandle fd fun handle => do
    let s ← Act.get
    match arg with
    | none =>
      let ret ← Act.ask (kcall .ioctl [handle] [request])
      let error := scError ret.ret
      pure (none, if error ≠ 0 then .error error else .ok (int32 ret.ret))
    | some bytes =>
      let call : KCall :=
        ⟨.ioctl, [handle], [request], [], some (ioctlSent s.fdTable request bytes)⟩
      let ret ← Act.ask call
      let (after, full) ← ioctlAfter s.fdTable request bytes ret
      let error := scError ret.ret
      pure (some after, if full then .error EMFILE
        else if error ≠ 0 then .error error else .ok (int32 ret.ret))

/-- Reads the attributes of a terminal. -/
def TCGETS : ℕ := 0x5401
/-- Sets the attributes of a terminal, at once. -/
def TCSETS : ℕ := 0x5402
/-- The same, when the output has drained. -/
def TCSETSW : ℕ := 0x5403
/-- The same, with the input flushed. -/
def TCSETSF : ℕ := 0x5404
/-- Reads the size of a terminal. -/
def TIOCGWINSZ : ℕ := 0x5413
/-- `tcsetattr` waits for the output. -/
def TCSADRAIN : ℤ := 1
/-- `tcsetattr` also flushes the input. -/
def TCSAFLUSH : ℤ := 2

/-- `Tcgetattr`: the attributes and the result. -/
def sysTcgetattr (fd : ℤ) (attr : Block) : Sys (Option Block × Except Errno ℤ) :=
  sysIoctl fd TCGETS (some attr)

/-- `Tcsetattr`: the attributes and the result. -/
def sysTcsetattr (fd optionalAction : ℤ) (attr : Block) : Sys (Option Block × Except Errno ℤ) :=
  sysIoctl fd (if optionalAction = TCSADRAIN then TCSETSW
    else if optionalAction = TCSAFLUSH then TCSETSF else TCSETS) (some attr)

end IUserApps.Sysdeps
