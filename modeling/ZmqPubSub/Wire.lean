import Mathlib.Data.List.Basic
import ZmqPubSub.Proto3

/-!
The message header of `broker.proto`, the in-process envelope of `wireframe.h` and the reserved
handler keys of `messagekeys.h`. A `std::string` that the program reads as text is a `String`;
the payload, which neither the broker nor the worker ever looks into, is a list of bytes.
-/

namespace ZmqPubSub

abbrev Bytes := List UInt8

namespace Keys

def connect : String := "__CONNECT__"
def disconnect : String := "__DISCONNECT__"
def reset : String := "__RESET__"
def heartbeat : String := "__HEARTBEAT__"
def heartbeatAck : String := "__HEARTBEAT_ACK__"
def subscribe : String := "__SUBSCRIBE__"
def unsubscribe : String := "__UNSUBSCRIBE__"
def sysStats : String := "__SYS_STATS__"

def isControlMessage (key : String) : Bool :=
  key == heartbeat || key == heartbeatAck || key == subscribe || key == unsubscribe ||
    key == connect || key == disconnect || key == reset

end Keys

/-- The fields that the reader of a `MessageHeader` looks at, by number and wire type. -/
def knownHeaderField (f : Proto3.Field) : Bool :=
  match f.value with
  | .len _ => f.number ∈ [1, 2, 3, 5, 6, 7, 11]
  | .varint _ => f.number ∈ [8, 9]
  | _ => false

/-- The other fields are kept, and written again behind the known ones. -/
abbrev UnknownFields :=
  { fs : List Proto3.Field // ∀ f ∈ fs, f.Valid ∧ knownHeaderField f = false }

namespace UnknownFields

def none : UnknownFields := ⟨[], fun _ hf => absurd hf List.not_mem_nil⟩

def add (fs : UnknownFields) (f : Proto3.Field) (h : f.Valid ∧ knownHeaderField f = false) :
    UnknownFields :=
  ⟨fs.val ++ [f], by
    intro g hg
    rcases List.mem_append.mp hg with hg | hg
    · exact fs.property g hg
    · rwa [List.mem_singleton.mp hg]⟩

end UnknownFields

/-- `broker::MessageHeader`; an absent field of the protobuf message reads as its default. -/
structure MessageHeader where
  handlerKey : String := ""
  senderId : String := ""
  topic : String := ""
  originBrokerId : String := ""
  messageUuid : String := ""
  transferId : String := ""
  sequenceNumber : Int32 := 0
  sequenceCount : Int32 := 0
  replyTopic : String := ""
  unknown : UnknownFields := .none
deriving DecidableEq, Repr

/-- A message as it travels in-process: a routing header plus an opaque payload. -/
structure Envelope where
  header : MessageHeader
  payload : Bytes
deriving DecidableEq, Repr

namespace Envelope

def uuid (env : Envelope) : String := env.header.messageUuid

def key (env : Envelope) : String := env.header.handlerKey

end Envelope

def createControlEnvelope (controlKey clientId topic : String) : Envelope :=
  { header := { handlerKey := controlKey, senderId := clientId, topic := topic }, payload := [] }

def heartbeatEnvelope (clientId : String) : Envelope :=
  createControlEnvelope Keys.heartbeat clientId ""

/-- What `generateUUID` returns: 36 characters, so never the empty string. -/
def Uuid := { s : String // s.length = 36 }

theorem Uuid.ne_empty (u : Uuid) : u.val ≠ "" := by
  intro h
  have hl := u.property
  rw [h] at hl
  simp at hl

/-- `broker::SystemStats`. The rate in kB/s is kept as the byte count it is computed from. -/
structure SystemStats where
  brokerId : String
  clientsCount : Int32
  peersCount : Int32
  msgsPerSec : UInt64
  bytesPerSec : UInt64
  totalMsgs : UInt64
  uptimeSec : Int
  connectedClients : List (String × List String)
deriving DecidableEq, Repr

/-- The generated protobuf code. What the program relies on is that parsing a serialised header
gives the header back. -/
structure Protobuf where
  serializeHeader : MessageHeader → Bytes
  parseHeader : Bytes → Option MessageHeader
  /-- `PackFrom` into an `Any`, then `SerializeAsString`. -/
  packStats : SystemStats → Bytes
  parse_serialize : ∀ h, parseHeader (serializeHeader h) = some h

namespace Wire

def protobufFormat : UInt8 := 1

variable (pb : Protobuf)

/-- A one-byte format tag followed by the codec's bytes. -/
def encodeHeader (h : MessageHeader) : Bytes := protobufFormat :: pb.serializeHeader h

def decodeHeader : Bytes → Option MessageHeader
  | [] => none
  | format :: data => if format = protobufFormat then pb.parseHeader data else none

/-- One multipart message without its routing id; the payload frame is omitted when empty. -/
abbrev Group := List Bytes

def sendFrames (headerFrame payload : Bytes) : Group :=
  if payload.isEmpty then [headerFrame] else [headerFrame, payload]

def send (env : Envelope) : Group := sendFrames (encodeHeader pb env.header) env.payload

/-- `wire::recv` on one group; frames past the payload are discarded. -/
def recv : Group → Option Envelope
  | [] => none
  | headerFrame :: rest =>
    (decodeHeader pb headerFrame).map fun h => { header := h, payload := rest.headD [] }

@[simp] theorem decodeHeader_encodeHeader (h : MessageHeader) :
    decodeHeader pb (encodeHeader pb h) = some h := by
  simp [decodeHeader, encodeHeader, pb.parse_serialize]

@[simp] theorem recv_sendFrames (h : MessageHeader) (payload : Bytes) :
    recv pb (sendFrames (encodeHeader pb h) payload) = some ⟨h, payload⟩ := by
  unfold sendFrames
  split_ifs with he
  · rw [List.isEmpty_iff] at he
    simp [recv, he]
  · simp [recv]

@[simp] theorem recv_send (env : Envelope) : recv pb (send pb env) = some env :=
  recv_sendFrames pb env.header env.payload

end Wire

end ZmqPubSub
