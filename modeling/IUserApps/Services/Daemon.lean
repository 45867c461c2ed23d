import IUserApps.Serving
import IUserApps.Words

/-!
# The service protocol

The messages of services and `service_daemon::run` (`service_daemon.hpp`), the loop of a service
that answers nothing but greetings. The protocol's own header is not part of this repository:
`Protocol` is what the services use of it, the sizes of the requests and the fields that a payload
has. A request begins with its header.
-/

namespace IUserApps.Services

open Serving

/-- The header that every request and every reply begins with. -/
structure MessageHeader where
  version : ℕ
  opcode : ℕ
  reserved : ℕ
deriving DecidableEq, Repr

/-- What a reply says of its request. -/
inductive Status
  | ok
  | badVersion
  | badOpcode
  | badPayload
deriving DecidableEq, Repr

/-- A message of a queue. -/
structure IPCMessage where
  id : ℕ
  flags : BitVec 64
  data : List Byte
deriving DecidableEq, Repr

/-- The version and the opcodes of a service, and the sizes of its requests. -/
structure Interface where
  version : ℕ
  opHello : ℕ
  helloRequestSize : ℕ

/-- The service protocol. -/
class Protocol where
  /-- `IPC_MESSAGE_REQUEST`. -/
  request : BitVec 64
  /-- `sizeof(MessageHeader)`. -/
  headerSize : ℕ
  /-- The header that a payload begins with. -/
  header : List Byte → MessageHeader
  /-- The interface of `graphics_compositor`, which the greetings of other services are of too. -/
  graphicsCompositor : Interface
  /-- The size of a reply's field for the service's name. -/
  serviceNameSize : ℕ

variable [Protocol]

/-- The message asks for a reply. -/
def IPCMessage.isRequest (message : IPCMessage) : Bool := message.flags &&& Protocol.request != 0

/-- Reads a request of a size from the payload: fails when the payload is shorter. -/
def decodeMessage {α : Type} (size : ℕ) (read : List Byte → α) (message : IPCMessage) : Option α :=
  if message.data.length < size then none else some (read message.data)

omit [Protocol] in
/-- A message is decoded if it is long enough. -/
theorem decodeMessage_isSome {α : Type} {size : ℕ} {read : List Byte → α} {message : IPCMessage} :
    (decodeMessage size read message).isSome = true ↔ size ≤ message.data.length := by
  unfold decodeMessage
  split
  · next h => simp [h]
  · next h => simp [Nat.le_of_not_lt h]

omit [Protocol] in
/-- What is decoded is what is read of the message. -/
theorem decodeMessage_some {α : Type} {size : ℕ} {read : List Byte → α} {message : IPCMessage}
    {request : α} (h : decodeMessage size read message = some request) :
    request = read message.data := by
  unfold decodeMessage at h
  split at h
  · exact nomatch h
  · exact (Option.some.inj h).symm

omit [Protocol] in
/-- What `strncpy` leaves of a string in a field of so many characters before its NUL. -/
def strncpy (s : String) (n : ℕ) : String := String.ofList (s.toList.take n)

/-- The answer to a hello. -/
structure HelloReply where
  header : MessageHeader
  status : Status
  serviceName : String
deriving DecidableEq, Repr

namespace Daemon

/-- The reply to a greeting. The request is checked against the version and the opcode. -/
def buildHelloReply (serviceName : String) (message : IPCMessage) : Option HelloReply :=
  let interface := Protocol.graphicsCompositor
  (decodeMessage interface.helloRequestSize Protocol.header message).map fun header =>
    { header := ⟨interface.version, interface.opHello, 0⟩
      status :=
        if header.version ≠ interface.version then .badVersion
        else if header.opcode ≠ interface.opHello then .badOpcode
        else .ok
      serviceName := strncpy serviceName (Protocol.serviceNameSize - 1) }

/-- The loop of `service_daemon::run`, which takes every request for a greeting. -/
def service (serviceName : String) : Service IPCMessage HelloReply where
  accepts := IPCMessage.isRequest
  build := buildHelloReply serviceName

/-- A request is no shorter than a greeting. -/
def Complete (message : IPCMessage) : Prop :=
  message.isRequest = true → Protocol.graphicsCompositor.helloRequestSize ≤ message.data.length

/-- A greeting of the right version. -/
structure WellFormed (message : IPCMessage) : Prop where
  isRequest : message.isRequest = true
  size : Protocol.graphicsCompositor.helloRequestSize ≤ message.data.length
  version : (Protocol.header message.data).version = Protocol.graphicsCompositor.version
  opcode : (Protocol.header message.data).opcode = Protocol.graphicsCompositor.opHello

/-- The reply of a service by its name. -/
def Answers (serviceName : String) (_ : IPCMessage) (reply : HelloReply) : Prop :=
  reply.status = .ok ∧ reply.serviceName = strncpy serviceName (Protocol.serviceNameSize - 1)

/-- A message that is well formed is accepted and answered. -/
theorem answers_of_wellFormed (serviceName : String) (message : IPCMessage)
    (h : WellFormed message) :
    (service serviceName).accepts message = true ∧
      ∀ reply, (service serviceName).build message = some reply →
        Answers serviceName message reply := by
  refine ⟨h.isRequest, ?_⟩
  intro reply hreply
  obtain ⟨header, hheader, rfl⟩ := Option.map_eq_some_iff.1 hreply
  have hread := decodeMessage_some hheader
  have hversion := h.version
  have hopcode := h.opcode
  rw [← hread] at hversion hopcode
  refine ⟨?_, rfl⟩
  -- The header passes both checks.
  show (if _ then Status.badVersion else if _ then Status.badOpcode else Status.ok) = .ok
  rw [if_neg (by simpa using hversion), if_neg (by simpa using hopcode)]

/-- A turn can be answered if its message is complete. -/
theorem answerable_iff (serviceName : String) (t : Turn IPCMessage) :
    (service serviceName).Answerable t ↔
      ∀ message, t.received = some message → Complete message := by
  have hbuild : ∀ message, ((service serviceName).build message).isSome = true ↔
      Protocol.graphicsCompositor.helloRequestSize ≤ message.data.length := by
    intro message
    show (Option.map _ _).isSome = true ↔ _
    rw [Option.isSome_map]
    exact decodeMessage_isSome
  constructor
  · intro h message hmessage hrequest
    exact (hbuild message).1 (h message hmessage hrequest)
  · intro h message hmessage haccepts
    exact (hbuild message).2 (h message hmessage haccepts)

end Daemon

end IUserApps.Services
