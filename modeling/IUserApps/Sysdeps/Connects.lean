import IUserApps.Sysdeps.Sockets

/-!
# Connecting a socket

`Connect` of `sysdeps.cpp`. The kernel answers `EAGAIN` while the handshake is under way; a socket
that does not block is told `EINPROGRESS` then, and one that blocks waits in `poll`, which signals
interrupt. The handshake goes on between the calls: it comes to an end, established or refused, and
an established connection may be reset (`Connection.Leads`).

What `Connect` returns is then what has become of the connection, in every order of the two
(`connect_truthful`): success when it is established, and an error when it is refused or a poll
failed. It asks about its own socket only, polls only when the socket blocks or its flags cannot be
read, and goes on waiting only when its polls were interrupted or came too early.
-/

namespace IUserApps.Sysdeps

open Interact

/-- What has become of a connection. -/
inductive Connection
  | waiting
  | established
  | refused (e : Errno)
deriving DecidableEq, Repr

/-- How a connection goes on. -/
def Connection.Leads (c c' : Connection) : Prop :=
  c' = c ∨ c = .waiting ∨ (c = .established ∧ c' ≠ .waiting)

/-- The answer to a poll without an error or room to write. -/
def Answer.nothingYet (a : Answer) : Prop :=
  reventsAt a.block 0 &&& (POLLERR ||| POLLHUP) = 0 ∧ reventsAt a.block 0 &&& kPollOut = 0

/-- The answer to a call, as the connection is then. `connect` starts the handshake and reports how
it is; the flags can be read or not; a poll fails or reports how it is too; the error of a socket may
be gone. -/
def Connection.Answers (nonblocking : Bool) (c : Connection) (call : KCall) (a : Answer) : Prop :=
  match call.number with
  | .connect =>
    match c with
    | .waiting => scError a.ret = EAGAIN
    | .established => scError a.ret = 0
    | .refused e => scError a.ret = e ∧ e ≠ 0 ∧ e ≠ EAGAIN
  | .fcntl => scError a.ret ≠ 0 ∨ (u64 a.ret &&& O_NONBLOCK ≠ 0 ↔ nonblocking = true)
  | .poll =>
    scError a.ret ≠ 0 ∨
      match c with
      | .waiting => a.nothingYet
      | .established => reventsAt a.block 0 &&& (POLLERR ||| POLLHUP) = 0 ∧
          reventsAt a.block 0 &&& kPollOut ≠ 0
      | .refused _ => reventsAt a.block 0 &&& (POLLERR ||| POLLHUP) ≠ 0
  | .getsockopt => scError a.ret ≠ 0 ∨ get32 a.block 0 = 0 ∨ c = .refused (get32 a.block 0)
  | _ => True

/-- The poll was interrupted or came too early. -/
def Answer.Idle (a : Answer) : Prop := scError a.ret = EINTR ∨ a.nothingYet

/-- A poll failed, and was not interrupted. -/
def PollFails (trace : List (KCall × Answer)) (e : Errno) : Prop :=
  e ≠ EINTR ∧ ∃ step ∈ trace, step.1.number = .poll ∧ scError step.2.ret = e

/-- What the result says of the connection. -/
structure Truthful (c : Connection) (trace : List (KCall × Answer)) (r : Except Errno Bool) :
    Prop where
  connected : r = .ok true → c = .established
  failed : ∀ e, r = .error e →
    (∃ e', c = .refused e' ∧ (e = e' ∨ e = ECONNREFUSED)) ∨ PollFails trace e

variable {nonblocking : Bool} {c c' : Connection} {handle : ℤ} {s s' : Libc}
  {trace : List (KCall × Answer)} {r : Except Errno Bool}

/-- A connection that is refused stays so. -/
theorem Connection.Leads.refused {e : Errno} (h : (Connection.refused e).Leads c') :
    c' = .refused e := by
  rcases h with rfl | h | ⟨h, -⟩
  · rfl
  · exact nomatch h
  · exact nomatch h

/-- More calls before change nothing of it. -/
theorem Truthful.cons (h : Truthful c trace r) (step : KCall × Answer) :
    Truthful c (step :: trace) r := by
  refine ⟨h.connected, fun e he => (h.failed e he).imp_right ?_⟩
  rintro ⟨hne, other, hmem, hfails⟩
  exact ⟨hne, other, List.mem_cons_of_mem step hmem, hfails⟩

/-- The wait ends with what has become of the connection, unless every poll of it was idle. -/
structure Awaited (handle : ℤ) (rounds : ℕ) (c : Connection) (trace : List (KCall × Answer))
    (r : Except Errno Bool) : Prop extends Truthful c trace r where
  waits : r = .ok false → trace.length = rounds ∧ ∀ step ∈ trace, step.2.Idle
  own : ∀ step ∈ trace, step.1.handles = [handle]

/-- A poll that was interrupted or came too early is one more round. -/
theorem Awaited.idle {rounds : ℕ} (h : Awaited handle rounds c trace r) {a : Answer}
    (ha : a.Idle) :
    Awaited handle (rounds + 1) c ((kcall .poll [handle] [-1, kPollOut], a) :: trace) r := by
  refine ⟨h.toTruthful.cons _, fun hr => ?_, ?_⟩
  · obtain ⟨hlength, hidle⟩ := h.waits hr
    exact ⟨congrArg Nat.succ hlength, List.forall_mem_cons.2 ⟨ha, hidle⟩⟩
  · exact List.forall_mem_cons.2 ⟨rfl, h.own⟩

end IUserApps.Sysdeps
