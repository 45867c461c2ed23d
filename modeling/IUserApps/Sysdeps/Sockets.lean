import IUserApps.Sysdeps.Files
import IUserApps.Sysdeps.Messages

/-!
# Calls on sockets
-/

namespace IUserApps.Sysdeps

open Interact

section
variable (fd : ℤ)

/-- `Bind`. -/
def sysBind (addr : List Byte) : Sys Unit :=
  handleCall fd .bind [addr.length] [addr] fun _ => ()

/-- `Listen`. -/
def sysListen (backlog : ℤ) : Sys Unit := handleCall fd .listen [backlog] [] fun _ => ()

/-- `Shutdown`. -/
def sysShutdown (how : ℤ) : Sys Unit := handleCall fd .shutdown [how] [] fun _ => ()

/-- `SetSockopt`. -/
def sysSetSockopt (layer number : ℤ) (buffer : List Byte) : Sys Unit :=
  handleCall fd .setsockopt [layer, number, buffer.length] [buffer] fun _ => ()

/-- `GetSockopt`: the option's value. -/
def sysGetSockopt (layer number : ℤ) (size : ℕ) : Sys Block :=
  handleCall fd .getsockopt [layer, number, size] [] (·.block)

/-- `Sockname` and `Peername`: the address. -/
def sysSockname (maxAddrLength : ℕ) : Sys (List Byte) :=
  handleCall fd .getsockname [maxAddrLength] [] (·.name)

/-- `Peername`: the address of the other side. -/
def sysPeername (maxAddrLength : ℕ) : Sys (List Byte) :=
  handleCall fd .getpeername [maxAddrLength] [] (·.name)

/-- `Sendto`: the count. -/
def sysSendto (buffer : List Byte) (flags : ℤ) (sockAddr : List Byte) : Sys ℤ :=
  withHandle fd fun handle => do
    let ret ← syscall (socketSendOne handle buffer flags sockAddr)
    pure ret.ret

/-- `Recvfrom`: the count, the bytes and the address. -/
def sysRecvfrom (size : ℕ) (flags : ℤ) (addrLength : Option ℕ) :
    Sys (ℤ × List Byte × List Byte) :=
  withHandle fd fun handle => do
    let ret ← syscall (socketRecvOne handle size flags addrLength)
    pure (ret.ret, bytesOf ret.block (u64 ret.ret), ret.name.take (addrLength.getD 0))

/-- The calls on the socket do not wait. -/
def O_NONBLOCK : ℕ := 0o4000

/-- Waits until a socket is connected, for at most `rounds` answers of the kernel; `false` when it
still waits then. -/
def awaitConnected (handle : ℤ) : ℕ → Sys Bool
  | 0 => pure false
  | rounds + 1 => do
    let ready ← Act.ask (kcall .poll [handle] [-1, kPollOut])
    let e := scError ready.ret
    if e ≠ 0 then
      if e = EINTR then awaitConnected handle rounds else Act.throw e
    else if reventsAt ready.block 0 &&& (POLLERR ||| POLLHUP) ≠ 0 then do
      let g ← Act.ask (kcall .getsockopt [handle] [SOL_SOCKET, SO_ERROR])
      let soerr := get32 g.block 0
      Act.throw (if scError g.ret = 0 ∧ soerr ≠ 0 then soerr else ECONNREFUSED)
    else if reventsAt ready.block 0 &&& kPollOut ≠ 0 then
      pure true
    else
      awaitConnected handle rounds

/-- `Connect`, observed for a number of rounds of its wait. -/
def sysConnect (addr : List Byte) (rounds : ℕ) : Sys Bool :=
  withHandle fd fun handle => do
    let ret ← Act.ask (kcallWith .connect [handle] [addr.length] [addr])
    let err := scError ret.ret
    if err ≠ EAGAIN then
      if err ≠ 0 then Act.throw err else pure true
    else
      let flags ← Act.ask (kcall .fcntl [handle] [F_GETFL, 0])
      if scError flags.ret = 0 ∧ u64 flags.ret &&& O_NONBLOCK ≠ 0 then
        Act.throw EINPROGRESS
      else
        awaitConnected handle rounds

end

end IUserApps.Sysdeps
