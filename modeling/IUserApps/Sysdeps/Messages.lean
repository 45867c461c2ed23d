import IUserApps.Sysdeps.Calls

/-!
# Messages with fds

`MsgSend` and `MsgRecv`. On a unix socket a message passes handles: `unixMsgSend` looks up the fds
in its control headers, and `unixMsgRecv` registers the handles that arrive. Another socket answers
`EOPNOTSUPP`, and then the bytes go by one datagram or by one call for each piece.
-/

namespace IUserApps.Sysdeps

open Interact

/-- The fds that a message may pass. -/
def kMaxPassedFds : ℕ := 253

/-- The level of what concerns sockets. -/
def SOL_SOCKET : ℤ := 1
/-- The type of a control message that passes fds. -/
def SCM_RIGHTS : ℤ := 1
/-- The option that says a socket's type. -/
def SO_TYPE : ℤ := 3
/-- The option that gives a socket's error. -/
def SO_ERROR : ℤ := 4
/-- The type of a datagram socket. -/
def SOCK_DGRAM : ℤ := 2
/-- Some of the fds of a message were closed. -/
def MSG_CTRUNC : ℕ := 8

/-- The length of a control message with `n` bytes of data. -/
def CMSG_LEN (n : ℕ) : ℕ := 16 + n
/-- Its room, with padding. -/
def CMSG_SPACE (n : ℕ) : ℕ := 16 + (n + 7) / 8 * 8

/-- A control header and the ints in it. -/
structure Cmsg where
  level : ℤ
  type : ℤ
  fds : List ℤ

/-- A message to send. -/
structure MsgHdr where
  /-- The address, empty when there is none. -/
  name : List Byte
  iov : List (List Byte)
  control : List Cmsg

/-- The room for a message: the length of each piece, of the address and of the control buffer. -/
structure MsgRoom where
  iov : List ℕ
  name : Option ℕ
  control : Option ℕ

/-- A message received: what was written to each piece, the fds in its control header, and the
lengths and flags stored. -/
structure Received where
  length : ℤ
  pieces : List (List Byte)
  fds : List ℕ
  name : List Byte
  namelen : ℕ
  controllen : ℕ
  flags : ℕ

/-! ## Sending -/

/-- Looks up the passed fds one after another. -/
def collectHandles (table : FdTable) : List ℤ → List ℤ → Except Errno (List ℤ)
  | [], handles => .ok handles
  | fd :: fds, handles =>
    if handles.length = kMaxPassedFds then .error EINVAL
    else if fd < 0 ∨ (kMaxFd : ℤ) ≤ fd ∨ (table fd.toNat = 0 ∧ 2 < fd) then .error EBADF
    else collectHandles table fds (handles ++ [handleForFd table fd])

/-- The fds in the `SCM_RIGHTS` headers. -/
def passedFds (hdr : MsgHdr) : List ℤ :=
  (hdr.control.filter fun c => c.level = SOL_SOCKET ∧ c.type = SCM_RIGHTS).flatMap (·.fds)

/-- A bounce buffer for several pieces cannot be allocated. -/
def bounceFails (alloc : ℕ → Bool) (pieces size : ℕ) : Bool :=
  pieces ≠ 1 && size ≠ 0 && !alloc size

/-- Sends to a unix socket; `none` when it is another socket. -/
def unixMsgSend (handle : ℤ) (hdr : MsgHdr) (flags : ℤ) (alloc : ℕ → Bool) :
    Sys (Option ℤ) := do
  let s ← Act.get
  match collectHandles s.fdTable (passedFds hdr) [] with
  | .error e => Act.throw e
  | .ok handles =>
    let data := hdr.iov.flatten
    if bounceFails alloc hdr.iov.length data.length then
      Act.throw ENOMEM
    else
      let ret ← Act.ask (kcallWith .socketSendmsg (handle :: handles) [flags] [data])
      let e := scError ret.ret
      if e = EOPNOTSUPP then
        if handles.length ≠ 0 then Act.throw EINVAL else pure none
      else if e ≠ 0 then
        Act.throw e
      else
        pure (some ret.ret)

/-- Asks whether the socket is a datagram socket. -/
def socketIsDatagram (handle : ℤ) : Sys Bool := do
  let g ← Act.ask (kcall .getsockopt [handle] [SOL_SOCKET, SO_TYPE])
  pure (scError g.ret = 0 && get32 g.block 0 = SOCK_DGRAM)

/-- The call that sends bytes, to an address if there is one. -/
def socketSendOne (handle : ℤ) (data : List Byte) (flags : ℤ) (dest : List Byte) : KCall :=
  if dest ≠ [] then kcallWith .sendto [handle] [flags] [data, dest]
  else kcallWith .send [handle] [flags] [data]

/-- Sends the pieces one after another, as long as each goes out whole. -/
def sendPieces (handle flags : ℤ) : List (List Byte) → ℤ → Sys ℤ
  | [], total => pure total
  | piece :: rest, total =>
    if piece.length = 0 then sendPieces handle flags rest total
    else do
      let ret ← Act.ask (kcallWith .send [handle] [flags] [piece])
      let e := scError ret.ret
      if e ≠ 0 then
        if 0 < total then pure total else Act.throw e
      else
        let total := total + ret.ret
        if u64 ret.ret < piece.length then pure total else sendPieces handle flags rest total

/-- Sends on a socket that is no unix socket: one datagram, or the pieces of a stream. -/
def plainMsgSend (handle : ℤ) (hdr : MsgHdr) (flags : ℤ) (alloc : ℕ → Bool) : Sys ℤ := do
  if ← socketIsDatagram handle then
    let data := hdr.iov.flatten
    if bounceFails alloc hdr.iov.length data.length then
      Act.throw ENOMEM
    else
      let ret ← syscall (socketSendOne handle data flags hdr.name)
      pure ret.ret
  else
    sendPieces handle flags hdr.iov 0

/-- `MsgSend`: the count. -/
def sysMsgSend (fd : ℤ) (hdr : MsgHdr) (flags : ℤ) (alloc : ℕ → Bool) : Sys ℤ :=
  withHandle fd fun handle => do
    match ← unixMsgSend handle hdr flags alloc with
    | some length => pure length
    | none => plainMsgSend handle hdr flags alloc

/-! ## Receiving -/

/-- The bytes of a buffer dealt out to pieces of given lengths. -/
def scatter : List ℕ → List Byte → List (List Byte)
  | [], _ => []
  | n :: lengths, bytes => bytes.take n :: scatter lengths (bytes.drop n)

/-- The first `n` bytes of memory. -/
def bytesOf (b : Block) (n : ℕ) : List Byte := (List.range n).map b

/-- The most handles that a control buffer has room for, counted in an `unsigned int`. -/
def fdCapacity (control : Option ℕ) : ℕ :=
  match control with
  | some n => if CMSG_LEN 4 ≤ n then min ((n - CMSG_LEN 0) / 4 % 2^32) kMaxPassedFds else 0
  | none => 0

/-- Registers the handles received, closing those that the table has no room for: the new fds, and
whether a handle was closed. -/
def registerReceived : List ℤ → Sys (List ℕ × Bool)
  | [] => pure ([], false)
  | handle :: handles => do
    match ← registerFd handle with
    | some fd =>
      let (fds, truncated) ← registerReceived handles
      pure (fd :: fds, truncated)
    | none =>
      let _ ← Act.ask (kcall .close [handle] [])
      let (fds, _) ← registerReceived handles
      pure (fds, true)

/-- Receives from a unix socket; `none` when it is another socket. -/
def unixMsgRecv (handle : ℤ) (room : MsgRoom) (flags : ℤ) (alloc : ℕ → Bool) :
    Sys (Option Received) :=
  let size := room.iov.sum
  if bounceFails alloc room.iov.length size then
    Act.throw ENOMEM
  else do
    let ret ← Act.ask (kcall .socketRecvmsg [handle] [flags, fdCapacity room.control, size])
    let e := scError ret.ret
    if e ≠ 0 then
      if e = EOPNOTSUPP then pure none else Act.throw e
    else
      let (fds, truncated) ← registerReceived ret.handles
      let used := if fds = [] then 0 else
        min (CMSG_SPACE (4 * fds.length)) (room.control.getD 0)
      pure (some {
        length := ret.ret
        pieces := scatter room.iov (bytesOf ret.block (u64 ret.ret))
        fds := fds
        name := []
        namelen := 0
        controllen := used
        flags := if truncated then ret.flags ||| MSG_CTRUNC else ret.flags })

/-- Receives the pieces one after another, as long as each is filled. -/
def recvPieces (handle flags : ℤ) : List ℕ → ℤ → List (List Byte) → Sys (ℤ × List (List Byte))
  | [], total, pieces => pure (total, pieces)
  | n :: rest, total, pieces =>
    if n = 0 then recvPieces handle flags rest total (pieces ++ [[]])
    else do
      let ret ← Act.ask (kcall .recv [handle] [n, flags])
      let e := scError ret.ret
      if e ≠ 0 then
        if 0 < total then pure (total, pieces) else Act.throw e
      else
        let total := total + ret.ret
        let pieces := pieces ++ [bytesOf ret.block (u64 ret.ret)]
        if u64 ret.ret < n then pure (total, pieces)
        else recvPieces handle flags rest total pieces

/-- The bytes of an address. -/
def sizeofSockaddrIn : ℕ := 16

/-- The call that receives bytes, with the address if it is asked for. -/
def socketRecvOne (handle : ℤ) (size : ℕ) (flags : ℤ) (name : Option ℕ) : KCall :=
  if name.isSome then kcall .recvfrom [handle] [size, flags] else kcall .recv [handle] [size, flags]

/-- The size of the bounce buffer for a datagram. -/
def bounceSize (size : ℕ) : ℕ := if size ≠ 0 then size else 1

/-- Receives on a socket that is no unix socket: one datagram, or the pieces of a stream. -/
def plainMsgRecv (handle : ℤ) (room : MsgRoom) (flags : ℤ) (alloc : ℕ → Bool) : Sys Received := do
  if ← socketIsDatagram handle then
    let size := room.iov.sum
    if room.iov.length ≠ 1 ∧ alloc (bounceSize size) = false then
      Act.throw ENOMEM
    else
      let ret ← syscall (socketRecvOne handle size flags room.name)
      pure {
        length := ret.ret
        pieces := scatter room.iov (bytesOf ret.block (u64 ret.ret))
        fds := []
        name := ret.name.take (room.name.getD 0)
        namelen := if room.name.isSome then sizeofSockaddrIn else 0
        controllen := 0
        flags := 0 }
  else
    let (total, pieces) ← recvPieces handle flags room.iov 0 []
    pure {
      length := total
      pieces := pieces
      fds := []
      name := []
      namelen := 0
      controllen := 0
      flags := 0 }

/-- `MsgRecv`, with the lengths it stores in the header. -/
def sysMsgRecv (fd : ℤ) (room : MsgRoom) (flags : ℤ) (alloc : ℕ → Bool) : Sys Received :=
  withHandle fd fun handle => do
    match ← unixMsgRecv handle room flags alloc with
    | some received => pure received
    | none => plainMsgRecv handle room flags alloc

end IUserApps.Sysdeps
