import IUserApps.Runs
import IUserApps.Sysdeps.Sockets

/-!
# Runs of a process

A process makes one call after another and the kernel answers: an event is a call with the answers
to its kernel calls, and a run is a list of events. Beside the state of the sysdeps a process has
the handles that the kernel has granted it (`live`) and the fds that are open by what the calls
have returned (`opened`): the standard streams always, others from the call that returned them to
the `Close` that succeeded.
-/

namespace IUserApps.Sysdeps

open Interact Runs

/-- A call that makes or releases fds. -/
inductive Invocation
  | open (path : List Byte) (flags mode : ℤ)
  | openat (dirfd : ℤ) (path : Option (List Byte)) (flags mode : ℤ)
  | dup (fd : ℤ)
  | dup2 (fd newfd : ℤ)
  | fcntl (fd request arg : ℤ)
  | pipe
  | socket (family type protocol : ℤ)
  | accept (fd : ℤ)
  | socketpair (domain typeAndFlags proto : ℤ)
  | msgRecv (fd : ℤ) (room : MsgRoom) (flags : ℤ) (alloc : ℕ → Bool)
  | ioctl (fd : ℤ) (request : ℕ) (arg : Option Block)
  | close (fd : ℤ)

/-- The fds that the kernel's slots in an ioctl's struct have become. -/
def ioctlFds (table : FdTable) (request : ℕ) (arg after : Option Block) : List ℕ :=
  match arg, after with
  | some bytes, some after =>
    (outOffsets request (ioctlSent table request bytes)).map fun offset =>
      (get32 after offset).toNat
  | _, _ => []

/-- Makes a call. The result is the list of the fds that it returns. -/
def Invocation.run : Invocation → Sys (List ℕ)
  | .open path flags mode => do
    let fd ← sysOpen path flags mode
    pure [fd]
  | .openat dirfd path flags mode => do
    let fd ← sysOpenat dirfd path flags mode
    pure [fd]
  | .dup fd => do
    let newfd ← sysDup fd
    pure [newfd]
  | .dup2 fd newfd => do
    sysDup2 fd newfd
    pure [newfd.toNat]
  | .fcntl fd request arg => do
    let result ← sysFcntl fd request arg
    pure (if isDupFd request then [result.toNat] else [])
  | .pipe => do
    let (r, w) ← sysPipe
    pure [r, w]
  | .socket family type protocol => do
    let fd ← sysSocket family type protocol
    pure [fd]
  | .accept fd => do
    let newfd ← sysAccept fd
    pure [newfd]
  | .socketpair domain typeAndFlags proto => do
    let (a, b) ← sysSocketpair domain typeAndFlags proto
    pure [a, b]
  | .msgRecv fd room flags alloc => do
    let received ← sysMsgRecv fd room flags alloc
    pure received.fds
  | .ioctl fd request arg => do
    let s ← Act.get
    let (after, status) ← sysIoctl fd request arg
    match status with
    | .ok _ => pure (ioctlFds s.fdTable request arg after)
    | .error e => Act.throw e
  | .close fd => do
    sysClose fd
    pure []

/-- A call and the kernel's answers to the kernel calls it makes. -/
structure Event where
  call : Invocation
  answers : ℕ → Answer

/-- A process: its table, the kernel's handles and the fds that are open. -/
structure Process where
  libc : Libc
  live : Live
  opened : Set ℕ

/-- A process at its start. -/
def initialProcess : Process := ⟨initialLibc, initialLive, {fd | fd < 3}⟩

/-- The result of a call. -/
def Process.result (p : Process) (e : Event) : Except Errno (List ℕ) :=
  (e.call.run.exec p.libc e.answers).1.1

/-- The kernel calls that it makes, with their answers. -/
def Process.trace (p : Process) (e : Event) : List (KCall × Answer) :=
  (e.call.run.exec p.libc e.answers).2

/-- The open fds after a call with a result. -/
def openedAfter (opened : Set ℕ) (call : Invocation) : Except Errno (List ℕ) → Set ℕ
  | .error _ => opened
  | .ok fds =>
    match call with
    | .close fd => {f | f ∈ opened ∧ ((f : ℤ) = fd → f < 3)}
    | _ => opened ∪ {f | f ∈ fds}

/-- The process after an event. -/
def Process.step (p : Process) (e : Event) : Process where
  libc := (e.call.run.exec p.libc e.answers).1.2
  live := p.live.run (p.trace e)
  opened := openedAfter p.opened e.call (p.result e)

/-- The kernel's handles after an event are those its calls leave. -/
@[simp] theorem step_live (p : Process) (e : Event) :
    (p.step e).live = p.live.run (p.trace e) := rfl

/-- The kernel's answers in an event are allowed. -/
def LegalEvent (p : Process) (e : Event) : Prop := Legal p.live (p.trace e)

/-- The process after a run. -/
def after (es : List Event) : Process := es.foldl Process.step initialProcess

/-- In a run from the start all answers of the kernel are allowed. -/
def LegalRun (es : List Event) : Prop := Along Process.step LegalEvent initialProcess es

/-- An event is a run of its call. -/
theorem event_runs (p : Process) (e : Event) :
    Act.Runs e.call.run p.libc (p.trace e) (p.result e) (p.step e).libc :=
  Act.exec_runs e.call.run p.libc e.answers

end IUserApps.Sysdeps
