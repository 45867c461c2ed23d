import IUserApps.Sysdeps.Messages

/-!
# Scatter and gather

`MsgSend` and `MsgRecv` deal with a list of pieces of memory. `scatterGather_iff` compares them with
one call on a flat buffer: what is sent is the start of the pieces put together, and what is received
is what one receive into a buffer of the total size returns, dealt out to the pieces in order, with the
same content left in the socket.

A unix socket and a datagram socket get one call for the whole message. A stream gets one for each
piece, and each takes from the stream what the one before has left, except with `MSG_PEEK`, which
leaves everything: then the second piece gets the bytes of the first again.

The socket's side is its queue and the bytes that it was handed (`SocketWorld`). It may transfer fewer
bytes than asked for and may fail at any call; an eager one transfers as many as it can.
-/

namespace IUserApps.Sysdeps

open Interact

/-- A receive leaves what it returns. -/
def MSG_PEEK : ℤ := 2
/-- The type of a stream socket. -/
def SOCK_STREAM : ℤ := 1

/-- The receive leaves what it returns. -/
def peeks (flags : ℤ) : Bool := flags / MSG_PEEK % 2 = 1

/-! ## The socket -/

/-- The kinds of what there is to receive. -/
inductive QueueKind
  | stream | datagrams
deriving DecidableEq, Repr

/-- What there is to receive: the bytes of a stream, or messages. -/
inductive Queue
  | stream (content : List Byte)
  | datagrams (messages : List (List Byte))
deriving DecidableEq, Repr

namespace Queue

/-- The kind of a queue. -/
def kind : Queue → QueueKind
  | stream _ => .stream
  | datagrams _ => .datagrams

/-- There is nothing to receive. -/
def empty : Queue → Prop
  | stream content => content = []
  | datagrams messages => messages = []

/-- One receive into a buffer of `size` bytes may return these bytes and leave this queue. A stream
may return fewer bytes than it could, an eager one does not; a message is cut to the buffer. -/
def Receives (eager : Bool) (size : ℕ) (peek : Bool) : Queue → List Byte → Queue → Prop
  | stream content, bytes, queue' =>
    ∃ n ≤ min size content.length, (eager = true → n = min size content.length) ∧
      bytes = content.take n ∧ queue' = stream (if peek then content else content.drop n)
  | datagrams (message :: messages), bytes, queue' =>
    bytes = message.take size ∧
      queue' = datagrams (if peek then message :: messages else messages)
  | datagrams [], _, _ => False

end Queue

/-- The socket that a message is for. -/
structure SocketWorld where
  isUnix : Bool
  queue : Queue
  /-- The bytes that it was handed. -/
  sent : List Byte

namespace SocketWorld

variable (w : SocketWorld)

/-- What `SO_TYPE` reports. -/
def type : ℤ :=
  match w.queue.kind with
  | .stream => SOCK_STREAM
  | .datagrams => SOCK_DGRAM

/-- A call that is given bytes fails, or takes some of them. -/
def Takes (data : List Byte) (a : Answer) (w' : SocketWorld) : Prop :=
  (scError a.ret ≠ 0 ∧ w' = w) ∨
    ∃ n ≤ data.length, a.ret = n ∧ w' = { w with sent := w.sent ++ data.take n }

/-- A call with room for bytes fails, or returns some. An eager socket fails only when it has
nothing. The count is a `long`. -/
def Gives (eager : Bool) (size : ℕ) (flags : ℤ) (a : Answer) (w' : SocketWorld) : Prop :=
  (scError a.ret ≠ 0 ∧ (eager = true → w.queue.empty) ∧ w' = w) ∨
    ∃ bytes queue', w.queue.Receives eager size (peeks flags) bytes queue' ∧
      a.ret = bytes.length ∧ a.ret < 2^63 ∧ bytesOf a.block bytes.length = bytes ∧
      w' = { w with queue := queue' }

/-- What the socket does on a call and answers. One that is no unix socket answers `EOPNOTSUPP` to a
call for messages, and a unix socket does not. -/
def Serves (eager : Bool) (c : KCall) (a : Answer) (w' : SocketWorld) : Prop :=
  match c.number with
  | .send | .sendto => w.Takes (c.data.headD []) a w'
  | .recv | .recvfrom => w.Gives eager (c.args.headD 0).toNat (c.args.getD 1 0) a w'
  | .socketSendmsg =>
    if w.isUnix then scError a.ret ≠ EOPNOTSUPP ∧ w.Takes (c.data.headD []) a w'
    else scError a.ret = EOPNOTSUPP ∧ w' = w
  | .socketRecvmsg =>
    if w.isUnix then
      scError a.ret ≠ EOPNOTSUPP ∧ w.Gives eager (c.args.getD 2 0).toNat (c.args.headD 0) a w'
    else scError a.ret = EOPNOTSUPP ∧ w' = w
  | .getsockopt => scError a.ret = 0 ∧ get32 a.block 0 = w.type ∧ w' = w
  | _ => w' = w

/-- The socket serves a trace of calls. -/
def ServesAll (eager : Bool) : SocketWorld → List (KCall × Answer) → SocketWorld → Prop
  | w, [], w' => w' = w
  | w, (c, a) :: rest, w' => ∃ mid, w.Serves eager c a mid ∧ ServesAll eager mid rest w'

end SocketWorld

/-! ## What is claimed -/

/-- The pieces hold the bytes, dealt out in order. Pieces that were not reached are missing. -/
def Received.Holds (received : Received) (sizes : List ℕ) (bytes : List Byte) : Prop :=
  ∃ k, received.pieces ++ List.replicate k [] = scatter sizes bytes

/-- Whenever a message is sent, the socket was handed the first bytes of its pieces put together, as
many as is reported. -/
def SendsFlat (hdr : MsgHdr) (flags : ℤ) : Prop :=
  ∀ eager fd s alloc trace length s' (w w' : SocketWorld),
    Act.Runs (sysMsgSend fd hdr flags alloc) s trace (.ok length) s' → w.ServesAll eager trace w' →
    ∃ n ≤ hdr.iov.flatten.length, length = n ∧
      w' = { w with sent := w.sent ++ hdr.iov.flatten.take n }

/-- One receive into a buffer of the total size may return the bytes that the pieces hold, as many
as is reported, and leave what is left. -/
def ReceivedFlat (eager : Bool) (room : MsgRoom) (flags : ℤ) (received : Received)
    (w w' : SocketWorld) : Prop :=
  ∃ bytes, w.queue.Receives eager room.iov.sum (peeks flags) bytes w'.queue ∧
    received.length = bytes.length ∧ received.Holds room.iov bytes

/-- So it is whenever a message is received. -/
def ReceivesFlat (isUnix : Bool) (kind : QueueKind) (room : MsgRoom) (flags : ℤ) : Prop :=
  ∀ eager fd s alloc trace received s' (w w' : SocketWorld), w.isUnix = isUnix →
    w.queue.kind = kind →
    Act.Runs (sysMsgRecv fd room flags alloc) s trace (.ok received) s' → w.ServesAll eager trace w' →
    ReceivedFlat eager room flags received w w'

/-- At most one piece has room, or the first that has is too large to be filled: a count of bytes is a
`long`. -/
def OneReceive : List ℕ → Prop
  | [] => True
  | size :: rest => if size = 0 then OneReceive rest else rest.sum = 0 ∨ 2^63 ≤ size

/-! ## What the socket has served -/

namespace SocketWorld

variable {w w' : SocketWorld} {eager : Bool} {c : KCall} {a : Answer}
  {trace : List (KCall × Answer)}

/-- Without a call nothing is served. -/
@[simp] theorem servesAll_nil : w.ServesAll eager [] w' ↔ w' = w := Iff.rfl

/-- The first call is served, then the others. -/
@[simp] theorem servesAll_cons : w.ServesAll eager ((c, a) :: trace) w' ↔
    ∃ mid, w.Serves eager c a mid ∧ mid.ServesAll eager trace w' := Iff.rfl

/-- Two traces in turn. -/
theorem servesAll_append {t t' : List (KCall × Answer)} : w.ServesAll eager (t ++ t') w' ↔
    ∃ mid, w.ServesAll eager t mid ∧ mid.ServesAll eager t' w' := by
  induction t generalizing w with
  | nil => simp
  | cons step t ih =>
    obtain ⟨c, a⟩ := step
    rw [List.cons_append, servesAll_cons]
    constructor
    · rintro ⟨first, hfirst, hrest⟩
      obtain ⟨mid, hmid, hlast⟩ := ih.1 hrest
      exact ⟨mid, ⟨first, hfirst, hmid⟩, hlast⟩
    · rintro ⟨mid, ⟨first, hfirst, hmid⟩, hlast⟩
      exact ⟨first, hfirst, ih.2 ⟨mid, hmid, hlast⟩⟩

/-- Nothing handed over. -/
theorem sent_append_nil (w : SocketWorld) : { w with sent := w.sent ++ [] } = w := by
  rw [List.append_nil]

end SocketWorld

/-- A count is no error. -/
theorem scError_natCast (n : ℕ) : scError n = 0 := by
  unfold scError
  rw [if_neg]
  omega

/-- A count of bytes that is not below the room for them is the room. -/
theorem eq_of_not_short {n size : ℕ} (h : n ≤ size) (hn : ¬u64 n < size) : n = size := by
  unfold u64 at hn
  omega

/-! ## Sending -/

section
variable {s s' : Libc} {trace : List (KCall × Answer)} {w w' : SocketWorld} {eager : Bool}

/-- The pieces of a stream, sent one after another: the first bytes of all of them. -/
theorem sendPieces_flat {handle flags : ℤ} {pieces : List (List Byte)} {total total' : ℤ}
    (h : Act.Runs (sendPieces handle flags pieces total) s trace (.ok total') s')
    (hw : w.ServesAll eager trace w') :
    ∃ n ≤ pieces.flatten.length, total' = total + n ∧
      w' = { w with sent := w.sent ++ pieces.flatten.take n } := by
  induction pieces generalizing trace total w with
  | nil =>
    obtain ⟨rfl, hr, -⟩ := Act.runs_pure.1 h
    obtain rfl := SocketWorld.servesAll_nil.1 hw
    have htotal := Except.ok.inj hr
    exact ⟨0, Nat.zero_le _, by omega, w'.sent_append_nil.symm⟩
  | cons piece rest ih =>
    unfold sendPieces at h
    split at h
    · next hempty =>
      obtain rfl := List.eq_nil_of_length_eq_zero hempty
      exact ih h hw
    · obtain ⟨a, t, rfl, hrun⟩ := Act.runs_ask_bind.1 h
      obtain ⟨mid, hmid, hrest⟩ := SocketWorld.servesAll_cons.1 hw
      have htakes : w.Takes piece a mid := hmid
      dsimp only at hrun
      rw [List.flatten_cons]
      split at hrun
      · next herror =>
        -- A call that fails after others have not ends the message there.
        split at hrun
        · obtain ⟨rfl, hr, -⟩ := Act.runs_pure.1 hrun
          obtain rfl := SocketWorld.servesAll_nil.1 hrest
          have htotal := Except.ok.inj hr
          rcases htakes with ⟨-, rfl⟩ | ⟨n, -, hret, -⟩
          · exact ⟨0, Nat.zero_le _, by omega, w'.sent_append_nil.symm⟩
          · rw [hret] at herror
            exact absurd (scError_natCast n) herror
        · obtain ⟨-, hr, -⟩ := Act.runs_throw.1 hrun
          cases hr
      · next hok =>
        rcases htakes with ⟨herror, -⟩ | ⟨n, hn, hret, rfl⟩
        · exact absurd herror hok
        rw [hret] at hrun
        split at hrun
        · obtain ⟨rfl, hr, -⟩ := Act.runs_pure.1 hrun
          obtain rfl := SocketWorld.servesAll_nil.1 hrest
          refine ⟨n, ?_, Except.ok.inj hr, ?_⟩
          · rw [List.length_append]
            omega
          · rw [List.take_append_of_le_length hn]
        · next hshort =>
          -- The piece has gone out whole.
          obtain rfl := eq_of_not_short hn hshort
          obtain ⟨m, hm, htotal, rfl⟩ := ih hrun hrest
          refine ⟨piece.length + m, ?_, by omega, ?_⟩
          · rw [List.length_append]
            omega
          · rw [List.take_length, List.take_length_add_append, List.append_assoc]

/-- One call with all the bytes. -/
theorem sends_of_takes {data : List Byte} {a : Answer} (h : w.Takes data a w')
    (hok : scError a.ret = 0) :
    ∃ n ≤ data.length, a.ret = n ∧ w' = { w with sent := w.sent ++ data.take n } := by
  rcases h with ⟨herror, -⟩ | h
  · exact absurd hok herror
  · exact h

/-- A message to a unix socket goes out in one call; nothing is handed to another socket. -/
theorem unixMsgSend_flat {handle flags : ℤ} {hdr : MsgHdr} {alloc : ℕ → Bool} {sent : Option ℤ}
    (h : Act.Runs (unixMsgSend handle hdr flags alloc) s trace (.ok sent) s')
    (hw : w.ServesAll eager trace w') :
    (sent = none ∧ w' = w) ∨ ∃ n ≤ hdr.iov.flatten.length, sent = some (n : ℤ) ∧
      w' = { w with sent := w.sent ++ hdr.iov.flatten.take n } := by
  unfold unixMsgSend at h
  rw [Act.runs_get_bind] at h
  cases hcollect : collectHandles s.fdTable (passedFds hdr) [] with
  | error e =>
    rw [hcollect] at h
    obtain ⟨-, hr, -⟩ := Act.runs_throw.1 h
    cases hr
  | ok handles =>
    rw [hcollect] at h
    dsimp only at h
    split at h
    · obtain ⟨-, hr, -⟩ := Act.runs_throw.1 h
      cases hr
    · obtain ⟨a, t, rfl, hrun⟩ := Act.runs_ask_bind.1 h
      obtain ⟨mid, hmid, hrest⟩ := SocketWorld.servesAll_cons.1 hw
      have hserves : if w.isUnix then
          scError a.ret ≠ EOPNOTSUPP ∧ w.Takes hdr.iov.flatten a mid
        else scError a.ret = EOPNOTSUPP ∧ mid = w := hmid
      split at hrun
      · next hother =>
        -- Only a socket of another kind answers so, and it has sent nothing.
        split at hserves
        · exact absurd hother hserves.1
        · obtain ⟨-, rfl⟩ := hserves
          split at hrun
          · obtain ⟨-, hr, -⟩ := Act.runs_throw.1 hrun
            cases hr
          · obtain ⟨rfl, hr, -⟩ := Act.runs_pure.1 hrun
            exact Or.inl ⟨Except.ok.inj hr, hrest⟩
      · next hsupported =>
        split at hserves
        · split at hrun
          · obtain ⟨-, hr, -⟩ := Act.runs_throw.1 hrun
            cases hr
          · next hok =>
            obtain ⟨rfl, hr, -⟩ := Act.runs_pure.1 hrun
            obtain rfl := SocketWorld.servesAll_nil.1 hrest
            obtain ⟨n, hn, hret, hsent⟩ := sends_of_takes hserves.2 (not_not.1 hok)
            rw [hret] at hr
            exact Or.inr ⟨n, hn, Except.ok.inj hr, hsent⟩
        · exact absurd hserves.1 hsupported

/-- Asking for the type of a socket leaves it. -/
theorem runs_socketIsDatagram {handle : ℤ} {r : Except Errno Bool}
    (h : Act.Runs (socketIsDatagram handle) s trace r s') (hw : w.ServesAll eager trace w') :
    r = .ok (w.queue.kind = .datagrams) ∧ w' = w := by
  obtain ⟨a, t, rfl, hrun⟩ := Act.runs_ask_bind.1 h
  obtain ⟨mid, ⟨hok, htype, rfl⟩, hrest⟩ := SocketWorld.servesAll_cons.1 hw
  obtain ⟨rfl, rfl, -⟩ := Act.runs_pure.1 hrun
  refine ⟨?_, hrest⟩
  rw [hok, htype]
  unfold SocketWorld.type
  cases mid.queue.kind <;> rfl

/-- A message to another socket: one datagram, or the pieces of a stream. -/
theorem plainMsgSend_flat {handle flags : ℤ} {hdr : MsgHdr} {alloc : ℕ → Bool} {length : ℤ}
    (h : Act.Runs (plainMsgSend handle hdr flags alloc) s trace (.ok length) s')
    (hw : w.ServesAll eager trace w') :
    ∃ n ≤ hdr.iov.flatten.length, length = n ∧
      w' = { w with sent := w.sent ++ hdr.iov.flatten.take n } := by
  rcases Act.runs_bind.1 h with ⟨e, -, he⟩ | ⟨datagram, mid, first, last, htype, hrun, rfl⟩
  · cases he
  obtain ⟨w1, hfirst, hlast⟩ := SocketWorld.servesAll_append.1 hw
  obtain ⟨-, rfl⟩ := runs_socketIsDatagram htype hfirst
  split at hrun
  · dsimp only at hrun
    split at hrun
    · obtain ⟨-, hr, -⟩ := Act.runs_throw.1 hrun
      cases hr
    · obtain ⟨a, t, rfl, hcall⟩ := runs_syscall_bind.1 hrun
      obtain ⟨w2, hw2, hrest⟩ := SocketWorld.servesAll_cons.1 hlast
      have htakes : w1.Takes hdr.iov.flatten a w2 := by
        unfold socketSendOne at hw2
        split at hw2 <;> exact hw2
      rcases hcall with ⟨-, -, hr, -⟩ | ⟨hok, hdone⟩
      · cases hr
      · obtain ⟨rfl, hr, -⟩ := Act.runs_pure.1 hdone
        obtain rfl := SocketWorld.servesAll_nil.1 hrest
        rw [Except.ok.inj hr]
        exact sends_of_takes htakes (Answer.ok_iff.1 hok)
  · obtain ⟨n, hn, htotal, hsent⟩ := sendPieces_flat hrun hlast
    exact ⟨n, hn, by omega, hsent⟩

/-- What is sent is the start of the pieces put together. -/
theorem sendsFlat (hdr : MsgHdr) (flags : ℤ) : SendsFlat hdr flags := by
  intro eager fd s alloc trace length s' w w' h hw
  unfold sysMsgSend at h
  rw [runs_withHandle] at h
  split at h
  · obtain ⟨-, hr, -⟩ := h
    cases hr
  rcases Act.runs_bind.1 h with ⟨e, -, he⟩ | ⟨sent, mid, first, last, hunix, hrun, rfl⟩
  · cases he
  obtain ⟨w1, hfirst, hlast⟩ := SocketWorld.servesAll_append.1 hw
  rcases unixMsgSend_flat hunix hfirst with ⟨rfl, rfl⟩ | ⟨n, hn, rfl, rfl⟩
  · exact plainMsgSend_flat hrun hlast
  · obtain ⟨rfl, hr, -⟩ := Act.runs_pure.1 hrun
    obtain rfl := SocketWorld.servesAll_nil.1 hlast
    exact ⟨n, hn, Except.ok.inj hr, rfl⟩

/-! ## Receiving -/

/-- Nothing is dealt out. -/
theorem scatter_nil (sizes : List ℕ) : scatter sizes [] = List.replicate sizes.length [] := by
  induction sizes with
  | nil => rfl
  | cons size rest ih =>
    unfold scatter
    rw [List.take_nil, List.drop_nil, ih, List.length_cons, List.replicate_succ]

/-- The first piece gets the bytes there is room for, and the others the rest. -/
theorem scatter_append {size : ℕ} {rest : List ℕ} {bytes bytes' : List Byte}
    (h : bytes.length = size) :
    scatter (size :: rest) (bytes ++ bytes') = bytes :: scatter rest bytes' := by
  show (bytes ++ bytes').take size :: scatter rest ((bytes ++ bytes').drop size) = _
  rw [← h, List.take_left, List.drop_left]

/-- The bytes end in the first piece. -/
theorem scatter_of_le {size : ℕ} {rest : List ℕ} {bytes : List Byte} (h : bytes.length ≤ size) :
    scatter (size :: rest) bytes = bytes :: List.replicate rest.length [] := by
  show bytes.take size :: scatter rest (bytes.drop size) = _
  rw [List.take_of_length_le h, List.drop_of_length_le h, scatter_nil]

/-- Pieces without room take no receive. -/
theorem oneReceive_of_sum_eq_zero {sizes : List ℕ} (h : sizes.sum = 0) : OneReceive sizes := by
  induction sizes with
  | nil => trivial
  | cons size rest ih =>
    rw [List.sum_cons] at h
    unfold OneReceive
    rw [if_pos (by omega)]
    exact ih (by omega)

/-- An answer with a count is a receive that returned that many bytes. -/
theorem receives_of_gives {size : ℕ} {flags : ℤ} {a : Answer} (h : w.Gives eager size flags a w')
    (hok : scError a.ret = 0) :
    ∃ bytes, w.queue.Receives eager size (peeks flags) bytes w'.queue ∧ a.ret = bytes.length ∧
      a.ret < 2^63 ∧ u64 a.ret = bytes.length ∧ bytesOf a.block (u64 a.ret) = bytes := by
  rcases h with ⟨herror, -, -⟩ | ⟨bytes, queue', hreceives, hret, hlong, hbytes, rfl⟩
  · exact absurd hok herror
  have hcount : u64 a.ret = bytes.length := by
    unfold u64
    omega
  refine ⟨bytes, hreceives, hret, hlong, hcount, ?_⟩
  rw [hcount]
  exact hbytes

/-- The pieces of these sizes, after others, get what one receive from a stream may return. -/
def Dealt (eager peek : Bool) (sizes : List ℕ) (content : List Byte) (total total' : ℤ)
    (pieces pieces' : List (List Byte)) (queue' : Queue) : Prop :=
  ∃ n ≤ min sizes.sum content.length, (eager = true → n = min sizes.sum content.length) ∧
    total' = total + n ∧
    (∃ k, pieces' ++ List.replicate k [] = pieces ++ scatter sizes (content.take n)) ∧
    queue' = .stream (if peek then content else content.drop n)

section
variable {peek : Bool} {size : ℕ} {sizes rest : List ℕ} {content : List Byte} {total total' : ℤ}
  {pieces pieces' : List (List Byte)} {queue' : Queue}

/-- Nothing more is received: an eager stream has nothing more, or there is no more room. -/
theorem dealt_none (h : eager = true → content = [] ∨ sizes = []) :
    Dealt eager peek sizes content total total pieces pieces (.stream content) := by
  refine ⟨0, Nat.zero_le _, fun heager => ?_, by omega, ⟨sizes.length, ?_⟩, ?_⟩
  · rcases h heager with rfl | rfl <;> simp
  · rw [List.take_zero, scatter_nil]
  · rw [List.drop_zero, ite_self]

/-- A piece without room is passed over. -/
theorem dealt_skip
    (h : Dealt eager peek rest content total total' (pieces ++ [[]]) pieces' queue') :
    Dealt eager peek (0 :: rest) content total total' pieces pieces' queue' := by
  obtain ⟨n, hn, heager, htotal, ⟨k, hk⟩, hqueue⟩ := h
  have hsum : (0 :: rest).sum = rest.sum := by rw [List.sum_cons, Nat.zero_add]
  rw [← hsum] at hn heager
  refine ⟨n, hn, heager, htotal, ⟨k, ?_⟩, hqueue⟩
  calc pieces' ++ List.replicate k []
      = pieces ++ [[]] ++ scatter rest (content.take n) := hk
    _ = pieces ++ scatter (0 :: rest) (content.take n) := List.append_assoc _ _ _

/-- A piece that is not filled is the last one. -/
theorem dealt_short {n : ℕ} (hn : n ≤ min size content.length) (hshort : n < size)
    (heager : eager = true → n = min size content.length) :
    Dealt eager peek (size :: rest) content total (total + n) pieces
      (pieces ++ [content.take n]) (.stream (if peek then content else content.drop n)) := by
  have hlen : (content.take n).length = n := List.length_take_of_le (by omega)
  refine ⟨n, ?_, fun h => ?_, rfl, ⟨rest.length, ?_⟩, rfl⟩
  · rw [List.sum_cons]
    omega
  · have hall := heager h
    rw [List.sum_cons]
    omega
  · rw [scatter_of_le (by omega), List.append_assoc, List.singleton_append]

/-- A piece that is filled, and then the others: with what is left of the stream, or with no room. -/
theorem dealt_cons (hsize : size ≤ content.length) (hone : peek = true → rest.sum = 0)
    (h : Dealt eager peek rest (if peek then content else content.drop size) (total + size) total'
      (pieces ++ [content.take size]) pieces' queue') :
    Dealt eager peek (size :: rest) content total total' pieces pieces' queue' := by
  obtain ⟨n, hn, heager, htotal, ⟨k, hk⟩, rfl⟩ := h
  have hlen : (content.take size).length = size := List.length_take_of_le hsize
  -- A peek takes nothing away, but has no room behind it either.
  have htake : (if peek then content else content.drop size).take n
      = (content.drop size).take n := by
    cases peek with
    | false => rfl
    | true =>
      have hzero : n = 0 := by
        have hsum := hone rfl
        omega
      rw [hzero, List.take_zero, List.take_zero]
  have hmin : (peek = true ∧ rest.sum = 0) ∨
      (if peek then content else content.drop size).length = content.length - size := by
    cases peek with
    | false => exact Or.inr (List.length_drop ..)
    | true => exact Or.inl ⟨rfl, hone rfl⟩
  refine ⟨size + n, ?_, fun he => ?_, by omega, ⟨k, ?_⟩, ?_⟩
  · rw [List.sum_cons]
    omega
  · have hall := heager he
    rw [List.sum_cons]
    omega
  · calc pieces' ++ List.replicate k []
        = pieces ++ [content.take size] ++ scatter rest ((content.drop size).take n) := by
          rw [hk, htake]
      _ = pieces ++ scatter (size :: rest) (content.take size ++ (content.drop size).take n) := by
          rw [scatter_append hlen, List.append_assoc, List.singleton_append]
      _ = pieces ++ scatter (size :: rest) (content.take (size + n)) := by
          rw [List.take_add]
  · cases peek with
    | false => exact congrArg Queue.stream List.drop_drop
    | true => rfl

/-- The pieces of a stream, received one after another, as one receive: while each receive takes what
it returns, or when only one piece has room. -/
theorem recvPieces_flat {handle flags : ℤ}
    (h : Act.Runs (recvPieces handle flags sizes total pieces) s trace (.ok (total', pieces')) s')
    (hw : w.ServesAll eager trace w') (hqueue : w.queue = .stream content)
    (hone : peeks flags = true → OneReceive sizes) :
    Dealt eager (peeks flags) sizes content total total' pieces pieces' w'.queue := by
  induction sizes generalizing trace total pieces w content with
  | nil =>
    obtain ⟨rfl, hr, -⟩ := Act.runs_pure.1 h
    obtain rfl := SocketWorld.servesAll_nil.1 hw
    obtain ⟨rfl, rfl⟩ := Prod.mk.inj (Except.ok.inj hr)
    rw [hqueue]
    exact dealt_none fun _ => Or.inr rfl
  | cons size rest ih =>
    unfold recvPieces at h
    split at h
    · next hzero =>
      subst hzero
      exact dealt_skip (ih h hw hqueue fun hpeek => by simpa [OneReceive] using hone hpeek)
    · next hsize =>
      obtain ⟨a, t, rfl, hrun⟩ := Act.runs_ask_bind.1 h
      obtain ⟨mid, hmid, hrest⟩ := SocketWorld.servesAll_cons.1 hw
      have hgives : w.Gives eager size flags a mid := hmid
      dsimp only at hrun
      split at hrun
      · next herror =>
        -- A call that fails after others have not ends the message there.
        split at hrun
        · obtain ⟨rfl, hr, -⟩ := Act.runs_pure.1 hrun
          obtain rfl := SocketWorld.servesAll_nil.1 hrest
          obtain ⟨rfl, rfl⟩ := Prod.mk.inj (Except.ok.inj hr)
          rcases hgives with ⟨-, hempty, rfl⟩ | ⟨bytes, queue', -, hret, -⟩
          · rw [hqueue] at hempty ⊢
            exact dealt_none fun heager => Or.inl (hempty heager)
          · rw [hret] at herror
            exact absurd (scError_natCast _) herror
        · obtain ⟨-, hr, -⟩ := Act.runs_throw.1 hrun
          cases hr
      · next hok =>
        obtain ⟨bytes, hreceives, hret, hlong, hu64, hbytes⟩ :=
          receives_of_gives hgives (not_not.1 hok)
        rw [hqueue] at hreceives
        obtain ⟨n, hn, heager, rfl, hmidq⟩ := hreceives
        have hcount : (content.take n).length = n := List.length_take_of_le (by omega)
        rw [hcount] at hret hu64
        rw [hbytes, hret] at hrun
        rw [hret] at hu64 hlong
        split at hrun
        · next hshort =>
          obtain ⟨rfl, hr, -⟩ := Act.runs_pure.1 hrun
          obtain rfl := SocketWorld.servesAll_nil.1 hrest
          obtain ⟨rfl, rfl⟩ := Prod.mk.inj (Except.ok.inj hr)
          rw [hmidq]
          rw [hu64] at hshort
          exact dealt_short hn hshort heager
        · next hshort =>
          have hfull : n = size := eq_of_not_short (by omega) hshort
          subst hfull
          have hnone : peeks flags = true → rest.sum = 0 := by
            intro hpeek
            have hroom := hone hpeek
            unfold OneReceive at hroom
            rw [if_neg hsize] at hroom
            omega
          refine dealt_cons (by omega) hnone (ih hrun hrest hmidq fun hpeek => ?_)
          exact oneReceive_of_sum_eq_zero (hnone hpeek)

end

/-- The handles of a message are registered or closed; the socket is left. -/
theorem servesAll_registerReceived {handles : List ℤ} {r : Except Errno (List ℕ × Bool)}
    (h : Act.Runs (registerReceived handles) s trace r s') (hw : w.ServesAll eager trace w') :
    w' = w := by
  induction handles generalizing s s' trace r w with
  | nil =>
    obtain ⟨rfl, -, -⟩ := Act.runs_pure.1 h
    exact hw
  | cons handle rest ih =>
    unfold registerReceived registerFd at h
    rw [runs_registerFdMin_bind] at h
    cases hfree : freeFd s.fdTable 3 with
    | some fd =>
      rw [hfree] at h
      rcases Act.runs_bind.1 h with ⟨e, hfirst, -⟩ | ⟨x, mid, first, last, hfirst, hlast, rfl⟩
      · exact ih hfirst hw
      · obtain ⟨w1, hw1, hw2⟩ := SocketWorld.servesAll_append.1 hw
        obtain ⟨rfl, -, -⟩ := Act.runs_pure.1 hlast
        obtain rfl := SocketWorld.servesAll_nil.1 hw2
        exact ih hfirst hw1
    | none =>
      -- No fd is free: the handle is closed, which leaves the socket alone.
      rw [hfree] at h
      obtain ⟨a, t, rfl, hrun⟩ := Act.runs_ask_bind.1 h
      obtain ⟨w1, hclose, hrest⟩ := SocketWorld.servesAll_cons.1 hw
      obtain rfl : w1 = w := hclose
      rcases Act.runs_bind.1 hrun with ⟨e, hfirst, -⟩ | ⟨x, mid, first, last, hfirst, hlast, rfl⟩
      · exact ih hfirst hrest
      · obtain ⟨w2, hw2, hw3⟩ := SocketWorld.servesAll_append.1 hrest
        obtain ⟨rfl, -, -⟩ := Act.runs_pure.1 hlast
        obtain rfl := SocketWorld.servesAll_nil.1 hw3
        exact ih hfirst hw2

/-- One call with room for all the bytes. -/
theorem receivedFlat_of_gives {room : MsgRoom} {flags : ℤ} {a : Answer} {received : Received}
    (h : w.Gives eager room.iov.sum flags a w') (hok : scError a.ret = 0)
    (hlength : received.length = a.ret)
    (hpieces : received.pieces = scatter room.iov (bytesOf a.block (u64 a.ret))) :
    ReceivedFlat eager room flags received w w' := by
  obtain ⟨bytes, hreceives, hret, -, -, hbytes⟩ := receives_of_gives h hok
  refine ⟨bytes, hreceives, hlength.trans hret, 0, ?_⟩
  rw [hpieces, hbytes, List.replicate_zero, List.append_nil]

/-- A message from a unix socket comes in one call; another socket is left as it is. -/
theorem unixMsgRecv_flat {handle flags : ℤ} {room : MsgRoom} {alloc : ℕ → Bool}
    {received : Option Received}
    (h : Act.Runs (unixMsgRecv handle room flags alloc) s trace (.ok received) s')
    (hw : w.ServesAll eager trace w') :
    (received = none ∧ w.isUnix = false ∧ w' = w) ∨
      ∃ r, received = some r ∧ w.isUnix = true ∧ ReceivedFlat eager room flags r w w' := by
  unfold unixMsgRecv at h
  dsimp only at h
  split at h
  · obtain ⟨-, hr, -⟩ := Act.runs_throw.1 h
    cases hr
  obtain ⟨a, t, rfl, hrun⟩ := Act.runs_ask_bind.1 h
  obtain ⟨mid, hmid, hrest⟩ := SocketWorld.servesAll_cons.1 hw
  have hserves : if w.isUnix then
      scError a.ret ≠ EOPNOTSUPP ∧ w.Gives eager room.iov.sum flags a mid
    else scError a.ret = EOPNOTSUPP ∧ mid = w := hmid
  split at hserves
  · next hunix =>
    split at hrun
    · split at hrun
      · next hother => exact absurd hother hserves.1
      · obtain ⟨-, hr, -⟩ := Act.runs_throw.1 hrun
        cases hr
    · -- The bytes came with the call; registering the handles leaves the socket.
      next hok =>
      rcases Act.runs_bind.1 hrun with ⟨e, -, he⟩ | ⟨x, mid', first, last, hfirst, hlast, rfl⟩
      · cases he
      obtain ⟨w1, hw1, hw2⟩ := SocketWorld.servesAll_append.1 hrest
      obtain rfl := servesAll_registerReceived hfirst hw1
      obtain ⟨rfl, hr, -⟩ := Act.runs_pure.1 hlast
      obtain rfl := SocketWorld.servesAll_nil.1 hw2
      exact Or.inr ⟨_, Except.ok.inj hr, hunix,
        receivedFlat_of_gives hserves.2 (not_not.1 hok) rfl rfl⟩
  · -- Another socket refuses the call before anything is taken.
    next hunix =>
    obtain ⟨hother, rfl⟩ := hserves
    have herror : scError a.ret ≠ 0 := by
      rw [hother]
      decide
    rw [if_pos herror, if_pos hother] at hrun
    obtain ⟨rfl, hr, -⟩ := Act.runs_pure.1 hrun
    exact Or.inl ⟨Except.ok.inj hr, Bool.eq_false_of_not_eq_true hunix, hrest⟩

/-- A message from another socket: one datagram, or the pieces of a stream. -/
theorem plainMsgRecv_flat {handle flags : ℤ} {room : MsgRoom} {alloc : ℕ → Bool}
    {received : Received}
    (h : Act.Runs (plainMsgRecv handle room flags alloc) s trace (.ok received) s')
    (hw : w.ServesAll eager trace w')
    (hone : w.queue.kind = .stream → peeks flags = true → OneReceive room.iov) :
    ReceivedFlat eager room flags received w w' := by
  rcases Act.runs_bind.1 h with ⟨e, -, he⟩ | ⟨datagram, mid, first, last, htype, hrun, rfl⟩
  · cases he
  obtain ⟨w1, hfirst, hlast⟩ := SocketWorld.servesAll_append.1 hw
  obtain ⟨hdatagram, rfl⟩ := runs_socketIsDatagram htype hfirst
  split at hrun
  · -- One datagram, received whole and dealt out to the pieces.
    dsimp only at hrun
    split at hrun
    · obtain ⟨-, hr, -⟩ := Act.runs_throw.1 hrun
      cases hr
    · obtain ⟨a, t, rfl, hcall⟩ := runs_syscall_bind.1 hrun
      obtain ⟨w2, hw2, hrest⟩ := SocketWorld.servesAll_cons.1 hlast
      have hgives : w1.Gives eager room.iov.sum flags a w2 := by
        unfold socketRecvOne at hw2
        split at hw2 <;> exact hw2
      rcases hcall with ⟨-, -, hr, -⟩ | ⟨hok, hdone⟩
      · cases hr
      · obtain ⟨rfl, hr, -⟩ := Act.runs_pure.1 hdone
        obtain rfl := SocketWorld.servesAll_nil.1 hrest
        rw [Except.ok.inj hr]
        exact receivedFlat_of_gives hgives (Answer.ok_iff.1 hok) rfl rfl
  · next hstream =>
    cases hqueue : w1.queue with
    | datagrams messages =>
      rw [hqueue] at hdatagram
      exact absurd (Except.ok.inj hdatagram) hstream
    | stream content =>
      -- A stream is received into one piece after another.
      rcases Act.runs_bind.1 hrun with ⟨e, -, he⟩ | ⟨x, mid', t, t', hpieces, hdone, rfl⟩
      · cases he
      obtain ⟨w2, hw2, hrest⟩ := SocketWorld.servesAll_append.1 hlast
      obtain ⟨rfl, hr, -⟩ := Act.runs_pure.1 hdone
      obtain rfl := SocketWorld.servesAll_nil.1 hrest
      obtain ⟨n, hn, heager, htotal, hholds, hleft⟩ :=
        recvPieces_flat hpieces hw2 hqueue (hone (by rw [hqueue]; rfl))
      rw [Except.ok.inj hr]
      refine ⟨content.take n, ?_, ?_, hholds⟩
      · rw [hqueue]
        exact ⟨n, hn, heager, rfl, hleft⟩
      · rw [List.length_take_of_le (by omega)]
        show x.1 = n
        omega

/-- What is received is what one receive returns, unless it is peeked from a stream into several
pieces. -/
theorem receivesFlat_of_oneReceive {isUnix : Bool} {kind : QueueKind} {room : MsgRoom} {flags : ℤ}
    (hone : isUnix = false → kind = .stream → peeks flags = true → OneReceive room.iov) :
    ReceivesFlat isUnix kind room flags := by
  intro eager fd s alloc trace received s' w w' hisUnix hkind h hw
  unfold sysMsgRecv at h
  rw [runs_withHandle] at h
  split at h
  · obtain ⟨-, hr, -⟩ := h
    cases hr
  rcases Act.runs_bind.1 h with ⟨e, -, he⟩ | ⟨x, mid, first, last, hfirst, hlast, rfl⟩
  · cases he
  obtain ⟨w1, hw1, hw2⟩ := SocketWorld.servesAll_append.1 hw
  rcases unixMsgRecv_flat hfirst hw1 with ⟨rfl, hother, rfl⟩ | ⟨r, rfl, -, hflat⟩
  · refine plainMsgRecv_flat hlast hw2 fun hstream => hone ?_ ?_
    · rw [← hisUnix, hother]
    · rw [← hkind, hstream]
  · obtain ⟨rfl, hr, -⟩ := Act.runs_pure.1 hlast
    obtain rfl := SocketWorld.servesAll_nil.1 hw2
    obtain rfl := Except.ok.inj hr
    exact hflat

/-! ## Peeking into several pieces -/

/-- An answer with bytes. -/
def givesBytes (bytes : List Byte) : Answer where
  ret := bytes.length
  handles := []
  block := fun i => bytes.getD i 0
  flags := 0
  name := []

/-- The bytes that the answer gives. -/
theorem bytesOf_givesBytes (bytes : List Byte) :
    bytesOf (givesBytes bytes).block bytes.length = bytes := by
  unfold bytesOf givesBytes
  refine List.ext_getElem (by simp) fun i h1 h2 => ?_
  simp [h2]

/-- An answer with an error. -/
def givesError (e : Errno) : Answer where
  ret := -e
  handles := []
  block := fun _ => 0
  flags := 0
  name := []

/-- A stream that is peeked gives some of its first bytes and keeps them. -/
theorem serves_peek {content : List Byte} {handle flags : ℤ} {n size : ℕ}
    (hqueue : w.queue = .stream content) (hpeek : peeks flags = true)
    (hn : n ≤ min size content.length) (hlong : n < 2^63) :
    w.Serves false (kcall .recv [handle] [size, flags]) (givesBytes (content.take n)) w := by
  have hlen : (content.take n).length = n := List.length_take_of_le (by omega)
  refine Or.inr ⟨content.take n, w.queue, ?_, rfl, ?_, bytesOf_givesBytes _, rfl⟩
  · show w.queue.Receives false size (peeks flags) _ _
    rw [hqueue, hpeek]
    exact ⟨n, hn, fun h => absurd h Bool.false_ne_true, rfl, rfl⟩
  · show ((content.take n).length : ℤ) < 2^63
    rw [hlen]
    exact_mod_cast hlong

section
variable {handle flags : ℤ} {sizes : List ℕ} {total : ℤ} {pieces : List (List Byte)}
  {content : List Byte}

/-- A piece without room is passed over. -/
theorem recvPieces_zero (rest : List ℕ) : recvPieces handle flags (0 :: rest) total pieces =
    recvPieces handle flags rest total (pieces ++ [[]]) := by
  rw [recvPieces, if_pos rfl]

/-- A message that has something ends with the next call, if that fails. -/
theorem recvPieces_ends (htotal : 0 < total) : ∃ trace pieces',
    Act.Runs (recvPieces handle flags sizes total pieces) s trace (.ok (total, pieces')) s ∧
      w.ServesAll false trace w := by
  induction sizes generalizing pieces with
  | nil => exact ⟨[], pieces, Act.runs_pure.2 ⟨rfl, rfl, rfl⟩, rfl⟩
  | cons size rest ih =>
    by_cases hsize : size = 0
    · rw [hsize, recvPieces_zero]
      exact ih
    · refine ⟨[(kcall .recv [handle] [size, flags], givesError EAGAIN)], pieces, ?_, ?_⟩
      · unfold recvPieces
        rw [if_neg hsize]
        refine Act.runs_ask_bind.2 ⟨givesError EAGAIN, [], rfl, ?_⟩
        dsimp only
        rw [if_pos (by decide), if_pos htotal]
        exact Act.runs_pure.2 ⟨rfl, rfl, rfl⟩
      · refine ⟨w, Or.inl ⟨by decide, fun h => absurd h Bool.false_ne_true, rfl⟩, rfl⟩

/-- A piece gets the first bytes of a stream that is peeked, and the next piece its turn if it is
filled. -/
theorem recvPieces_peek {n size : ℕ} {rest : List ℕ} {total' : ℤ} {pieces' : List (List Byte)}
    {trace : List (KCall × Answer)} (hqueue : w.queue = .stream content)
    (hpeek : peeks flags = true) (hsize : size ≠ 0) (hn : n ≤ min size content.length)
    (hlong : n < 2^63)
    (hrun : Act.Runs (if n < size then pure (total + n, pieces ++ [content.take n])
      else recvPieces handle flags rest (total + n) (pieces ++ [content.take n]) : Sys _)
      s trace (.ok (total', pieces')) s) (hserves : w.ServesAll false trace w) :
    ∃ trace, Act.Runs (recvPieces handle flags (size :: rest) total pieces) s trace
        (.ok (total', pieces')) s ∧ w.ServesAll false trace w := by
  have hlen : (content.take n).length = n := List.length_take_of_le (by omega)
  have hret : (givesBytes (content.take n)).ret = n := congrArg Nat.cast hlen
  have hu64 : u64 n = n := by
    unfold u64
    omega
  have hbytes : bytesOf (givesBytes (content.take n)).block n = content.take n := by
    have h := bytesOf_givesBytes (content.take n)
    rwa [hlen] at h
  refine ⟨(kcall .recv [handle] [size, flags], givesBytes (content.take n)) :: trace, ?_, w,
    serves_peek hqueue hpeek hn hlong, hserves⟩
  unfold recvPieces
  rw [if_neg hsize]
  refine Act.runs_ask_bind.2 ⟨givesBytes (content.take n), trace, rfl, ?_⟩
  dsimp only
  rw [hret, scError_natCast, hu64, hbytes, if_neg (not_not.2 rfl)]
  exact hrun

/-- A further piece with room gets the first byte again. -/
theorem recvPieces_repeats (hqueue : w.queue = .stream content) (hpeek : peeks flags = true)
    (hcontent : content ≠ []) (htotal : 0 < total) (hroom : sizes.sum ≠ 0) : ∃ trace pieces',
    Act.Runs (recvPieces handle flags sizes total pieces) s trace (.ok (total + 1, pieces')) s ∧
      w.ServesAll false trace w := by
  have hpos : 0 < content.length := List.length_pos_iff.2 hcontent
  induction sizes generalizing pieces with
  | nil => exact absurd rfl hroom
  | cons size rest ih =>
    by_cases hsize : size = 0
    · rw [List.sum_cons, hsize, Nat.zero_add] at hroom
      rw [hsize, recvPieces_zero]
      exact ih hroom
    · obtain ⟨t, pieces', hrun, hserves⟩ : ∃ t pieces', Act.Runs (if 1 < size
          then pure (total + (1 : ℕ), pieces ++ [content.take 1])
          else recvPieces handle flags rest (total + (1 : ℕ)) (pieces ++ [content.take 1]) : Sys _)
          s t (.ok (total + 1, pieces')) s ∧ w.ServesAll false t w := by
        split
        · exact ⟨[], _, Act.runs_pure.2 ⟨rfl, rfl, rfl⟩, rfl⟩
        · exact recvPieces_ends (by omega)
      obtain ⟨trace, h⟩ :=
        recvPieces_peek hqueue hpeek hsize (by omega) (by decide) hrun hserves
      exact ⟨trace, pieces', h⟩

/-- Some stream that is peeked into several pieces gives more bytes than it has. -/
theorem recvPieces_overruns (h : ¬OneReceive sizes) (hpeek : peeks flags = true) : ∃ n : ℕ,
    ∀ {w : SocketWorld}, w.queue = .stream (List.replicate n 0) → ∃ trace pieces',
      Act.Runs (recvPieces handle flags sizes 0 pieces) s trace (.ok ((n : ℤ) + 1, pieces')) s ∧
        w.ServesAll false trace w := by
  induction sizes generalizing pieces with
  | nil => exact absurd trivial h
  | cons size rest ih =>
    unfold OneReceive at h
    split at h
    · next hsize =>
      rw [hsize, recvPieces_zero]
      exact ih h
    · next hsize =>
      rw [not_or, Nat.not_le] at h
      -- A stream of just the first piece's bytes: the second piece peeks at its first byte again.
      refine ⟨size, fun {w} hqueue => ?_⟩
      have hcontent : List.replicate size (0 : Byte) ≠ [] := by
        simpa using hsize
      obtain ⟨t, pieces', hrun, hserves⟩ : ∃ t pieces',
          Act.Runs (recvPieces handle flags rest (0 + (size : ℤ))
            (pieces ++ [(List.replicate size 0).take size])) s t (.ok (0 + size + 1, pieces')) s ∧
            w.ServesAll false t w :=
        recvPieces_repeats hqueue hpeek hcontent (by omega) h.1
      have hnext : Act.Runs (if size < size
          then pure (0 + (size : ℤ), pieces ++ [(List.replicate size 0).take size])
          else recvPieces handle flags rest (0 + (size : ℤ))
            (pieces ++ [(List.replicate size 0).take size]) : Sys _)
          s t (.ok (0 + size + 1, pieces')) s := by
        rw [if_neg (Nat.lt_irrefl _)]
        exact hrun
      obtain ⟨trace, hpeeked, hserved⟩ :=
        recvPieces_peek hqueue hpeek hsize (by simp) h.2 hnext hserves
      rw [Int.zero_add] at hpeeked
      exact ⟨trace, pieces', hpeeked, hserved⟩

end

/-- The answer to `SO_TYPE`. -/
def givesType (type : ℕ) : Answer where
  ret := 0
  handles := []
  block := put32 (fun _ => 0) 0 type
  flags := 0
  name := []

/-- The calls before the pieces of a stream that is no unix socket. -/
def streamCalls (room : MsgRoom) (flags : ℤ) : List (KCall × Answer) :=
  [(kcall .socketRecvmsg [0] [flags, fdCapacity room.control, room.iov.sum], givesError EOPNOTSUPP),
    (kcall .getsockopt [0] [SOL_SOCKET, SO_TYPE], givesType 1)]

/-- A message from such a stream comes piece by piece. -/
theorem runs_sysMsgRecv_stream {room : MsgRoom} {flags total : ℤ} {pieces : List (List Byte)}
    (h : Act.Runs (recvPieces 0 flags room.iov 0 []) initialLibc trace (.ok (total, pieces))
      initialLibc) :
    Act.Runs (sysMsgRecv 0 room flags fun _ => true) initialLibc (streamCalls room flags ++ trace)
      (.ok ⟨total, pieces, [], [], 0, 0, 0⟩) initialLibc := by
  -- The kernel says that it is no unix socket, and then that it is a stream.
  have hother : Act.Runs (unixMsgRecv 0 room flags fun _ => true) initialLibc
      [(kcall .socketRecvmsg [0] [flags, fdCapacity room.control, room.iov.sum],
        givesError EOPNOTSUPP)] (.ok none) initialLibc := by
    have halloc : bounceFails (fun _ => true) room.iov.length room.iov.sum = false :=
      Bool.and_false _
    unfold unixMsgRecv
    dsimp only
    rw [halloc, if_neg Bool.false_ne_true]
    refine Act.runs_ask_bind.2 ⟨givesError EOPNOTSUPP, [], rfl, ?_⟩
    rw [if_pos (by decide), if_pos (by decide)]
    exact Act.runs_pure.2 ⟨rfl, rfl, rfl⟩
  have htype : Act.Runs (socketIsDatagram 0) initialLibc
      [(kcall .getsockopt [0] [SOL_SOCKET, SO_TYPE], givesType 1)] (.ok false) initialLibc := by
    have hget : get32 (givesType 1).block 0 = (1 : ℕ) := get32_put32 _ 0 (by decide)
    refine Act.runs_ask_bind.2 ⟨givesType 1, [], rfl, ?_⟩
    rw [hget]
    exact Act.runs_pure.2 ⟨rfl, rfl, rfl⟩
  have hplain : Act.Runs (plainMsgRecv 0 room flags fun _ => true) initialLibc
      ([(kcall .getsockopt [0] [SOL_SOCKET, SO_TYPE], givesType 1)] ++ trace)
      (.ok ⟨total, pieces, [], [], 0, 0, 0⟩) initialLibc := by
    refine Act.runs_bind.2 (Or.inr ⟨false, initialLibc, _, _, htype, ?_, rfl⟩)
    rw [if_neg Bool.false_ne_true]
    exact Act.runs_bind.2
      (Or.inr ⟨_, initialLibc, trace, [], h, Act.runs_pure.2 ⟨rfl, rfl, rfl⟩, by simp⟩)
  unfold sysMsgRecv
  rw [runs_withHandle, if_neg (by decide)]
  exact Act.runs_bind.2 (Or.inr ⟨none, initialLibc, _, _, hother, hplain, rfl⟩)

/-- The stream serves them. -/
theorem serves_streamCalls {content : List Byte} {room : MsgRoom} {flags : ℤ}
    (hunix : w.isUnix = false) (hqueue : w.queue = .stream content) :
    w.ServesAll eager (streamCalls room flags) w := by
  have htype : get32 (givesType 1).block 0 = w.type := by
    rw [SocketWorld.type, hqueue]
    exact get32_put32 _ 0 (by decide)
  refine ⟨w, ?_, w, ⟨rfl, htype, rfl⟩, rfl⟩
  show if w.isUnix then _ else _
  rw [hunix]
  exact ⟨by decide, rfl⟩

/-- A stream that is peeked into several pieces may give what one receive does not. -/
theorem not_receivesFlat {room : MsgRoom} {flags : ℤ} (hpeek : peeks flags = true)
    (h : ¬OneReceive room.iov) : ¬ReceivesFlat false .stream room flags := by
  intro hflat
  obtain ⟨n, hn⟩ : ∃ n : ℕ, ∀ {w : SocketWorld}, w.queue = .stream (List.replicate n 0) →
      ∃ trace pieces', Act.Runs (recvPieces 0 flags room.iov 0 []) initialLibc trace
        (.ok ((n : ℤ) + 1, pieces')) initialLibc ∧ w.ServesAll false trace w :=
    recvPieces_overruns h hpeek
  let w : SocketWorld := ⟨false, .stream (List.replicate n 0), []⟩
  obtain ⟨trace, pieces, hrun, hserves⟩ := hn (w := w) rfl
  obtain ⟨bytes, ⟨k, hk, -, rfl, -⟩, hlength, -⟩ := hflat false 0 initialLibc _ _ _ _ w w rfl rfl
    (runs_sysMsgRecv_stream hrun)
    (SocketWorld.servesAll_append.2 ⟨w, serves_streamCalls rfl rfl, hserves⟩)
  -- One receive returns no more than there is.
  have hbytes : ((List.replicate n (0 : Byte)).take k).length ≤ n := by
    rw [List.length_take, List.length_replicate]
    omega
  have hcount : (n : ℤ) + 1 = ((List.replicate n (0 : Byte)).take k).length := hlength
  omega

end

/-- `MsgSend` hands over the start of its pieces, and `MsgRecv` receives what one receive into a buffer
of the total size does, exactly when the message is not peeked from a stream, other than a unix socket,
by more than one receive. -/
theorem scatterGather_iff (isUnix : Bool) (kind : QueueKind) (hdr : MsgHdr) (room : MsgRoom)
    (flags : ℤ) : (SendsFlat hdr flags ∧ ReceivesFlat isUnix kind room flags) ↔
      (isUnix = false → kind = .stream → peeks flags = true → OneReceive room.iov) := by
  constructor
  · rintro ⟨-, hflat⟩ rfl rfl hpeek
    by_contra h
    exact not_receivesFlat hpeek h hflat
  · intro hone
    exact ⟨sendsFlat hdr flags, receivesFlat_of_oneReceive hone⟩

/-- Room for two pieces of two bytes. -/
def twoPieces : MsgRoom := ⟨[2, 2], none, none⟩

/-- A stream with four bytes. -/
def fourBytes : SocketWorld := ⟨false, .stream [1, 2, 3, 4], []⟩

/-- The calls of a receive into the two pieces, with the first two bytes for each. -/
def peekTrace : List (KCall × Answer) :=
  streamCalls twoPieces MSG_PEEK ++
    [(kcall .recv [0] [2, MSG_PEEK], givesBytes [1, 2]),
      (kcall .recv [0] [2, MSG_PEEK], givesBytes [1, 2])]

/-- Four bytes peeked into two pieces are the first two, twice, and not what one receive returns. -/
theorem msgRecv_peeks_twice :
    Act.Runs (sysMsgRecv 0 twoPieces MSG_PEEK fun _ => true) initialLibc peekTrace
        (.ok ⟨4, [[1, 2], [1, 2]], [], [], 0, 0, 0⟩) initialLibc ∧
      fourBytes.ServesAll true peekTrace fourBytes ∧
      ¬ReceivedFlat true twoPieces MSG_PEEK ⟨4, [[1, 2], [1, 2]], [], [], 0, 0, 0⟩ fourBytes
        fourBytes ∧
      ¬ReceivesFlat false .stream twoPieces MSG_PEEK := by
  have hrun : Act.Runs (sysMsgRecv 0 twoPieces MSG_PEEK fun _ => true) initialLibc peekTrace
      (.ok ⟨4, [[1, 2], [1, 2]], [], [], 0, 0, 0⟩) initialLibc := by
    refine runs_sysMsgRecv_stream ?_
    refine Act.runs_ask_bind.2 ⟨_, _, rfl, ?_⟩
    refine Act.runs_ask_bind.2 ⟨_, _, rfl, ?_⟩
    exact Act.runs_pure.2 ⟨rfl, rfl, rfl⟩
  have hserves : fourBytes.ServesAll true peekTrace fourBytes := by
    have hpeek : fourBytes.Serves true (kcall .recv [0] [2, MSG_PEEK]) (givesBytes [1, 2])
        fourBytes := by
      refine Or.inr ⟨[1, 2], fourBytes.queue, ?_, rfl, by decide, rfl, rfl⟩
      exact ⟨2, by decide, fun _ => rfl, rfl, rfl⟩
    exact SocketWorld.servesAll_append.2
      ⟨fourBytes, serves_streamCalls rfl rfl, fourBytes, hpeek, fourBytes, hpeek, rfl⟩
  have hnot : ¬ReceivedFlat true twoPieces MSG_PEEK ⟨4, [[1, 2], [1, 2]], [], [], 0, 0, 0⟩
      fourBytes fourBytes := by
    rintro ⟨bytes, ⟨n, -, hn, rfl, -⟩, -, k, hk⟩
    have hall : n = 4 := hn rfl
    subst hall
    have hsecond : some ([1, 2] : List Byte) = some [3, 4] :=
      congrArg (fun pieces => pieces.tail.head?) hk
    exact absurd hsecond (by decide)
  exact ⟨hrun, hserves, hnot, fun hflat =>
    hnot (hflat true 0 initialLibc _ _ _ _ fourBytes fourBytes rfl rfl hrun hserves)⟩

end IUserApps.Sysdeps
