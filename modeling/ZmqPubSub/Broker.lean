import Mathlib.Data.List.Basic
import ZmqPubSub.HistoryWindow
import ZmqPubSub.SubscriptionRegistry
import ZmqPubSub.TransitionSystem
import ZmqPubSub.Wire

/-!
`ZmqBroker::run` and what it calls, as a function from the broker state and one input to the next
state and the calls it makes on its sockets and peer links, in order. `generateUUID` and the
steady clock are inputs of the step. A peer link is an opaque handle `ω`.
-/

namespace ZmqPubSub

open Containers HistoryWindow

/-- A `steady_clock` time point, in nanoseconds. -/
abbrev Time := ℤ

def seconds (n : ℤ) : Time := n * 1000000000

structure ClientState where
  identity : String
  lastSeen : Time

/-- What a step of the broker thread does besides changing the state. -/
inductive Effect (ω : Type*)
  /-- `wire::sendFrames` on the inspector socket. -/
  | inspect (headerBytes payload : Bytes)
  /-- A call of `isDuplicate` and its verdict; `sender` is the local client, if any. -/
  | dedup (sender : Option String) (uuid : String) (duplicate : Bool)
  | sendToClient (clientId : String) (headerBytes payload : Bytes)
  | writeMessage (peer : ω) (env : Envelope)

structure Broker (ω : Type*) where
  brokerId : String
  clients : Table String ClientState := ∅
  subscriptions : SubscriptionRegistry := {}
  /-- `m_seenMessageIds` and `m_messageIdOrder`. -/
  window : Window String := {}
  peers : Table String ω := ∅
  startTime : Time := 0
  lastStatsTime : Time := 0
  totalMessages : UInt64 := 0
  totalBytes : UInt64 := 0
  msgsInterval : UInt64 := 0
  bytesInterval : UInt64 := 0

namespace Broker

def clientTimeout : Time := seconds 10

def maxHistorySize : ℕ := 10000

variable {ω : Type*} (pb : Protobuf) (b : Broker ω)

def isDuplicate (uuid : String) : Bool × Broker ω :=
  let (duplicate, window) := check maxHistorySize b.window uuid
  (duplicate, { b with window := window })

def removeClient (clientId : String) : Broker ω :=
  { b with subscriptions := b.subscriptions.removeClient clientId
           clients := b.clients.erase clientId }

/-- Create the client's entry if need be and refresh it. -/
def touch (senderId : String) (now : Time) : Broker ω :=
  { b with clients := b.clients.insert senderId ⟨senderId, now⟩ }

/-- Fresh messages get an identity, forwarded ones keep theirs. -/
def stamp (fresh : Uuid) (header : MessageHeader) : MessageHeader :=
  if header.messageUuid = "" then
    { header with messageUuid := fresh.val, originBrokerId := b.brokerId }
  else header

/-- The `deliver` lambda of `processMessage`. -/
def deliver (headerBytes payload : Bytes) (senderId : String) (isFromPeer : Bool) (id : String) :
    List (Effect ω) :=
  if isFromPeer = false ∧ id = senderId then []
  else if id ∉ b.clients then []
  else [.sendToClient id headerBytes payload]

def deliverLocal (header : MessageHeader) (headerBytes payload : Bytes) (senderId : String)
    (isFromPeer : Bool) : List (Effect ω) :=
  let exactSubs := b.subscriptions.subscribersOf header.topic
  -- an empty-topic subscription is a wildcard
  let wildcardSubs := if header.topic = "" then none else b.subscriptions.subscribersOf ""
  let deliver := b.deliver headerBytes payload senderId isFromPeer
  (exactSubs.getD []).flatMap deliver ++
    (wildcardSubs.getD []).flatMap fun id => if id ∈ exactSubs.getD [] then [] else deliver id

def floodPeers (header : MessageHeader) (payload : Bytes) : List (Effect ω) :=
  b.peers.entries.map fun e => .writeMessage e.2 ⟨header, payload⟩

/-- The routing stage of `processMessage`: loop protection, local subscribers, peers. -/
def route (header : MessageHeader) (payload : Bytes) (senderId : String) (isFromPeer : Bool) :
    Broker ω × List (Effect ω) :=
  let (duplicate, b) := b.isDuplicate header.messageUuid
  let call := Effect.dedup (if isFromPeer then none else some senderId) header.messageUuid duplicate
  if duplicate then (b, [call])
  else
    (b, call :: (b.deliverLocal header (Wire.encodeHeader pb header) payload senderId isFromPeer ++
      b.floodPeers header payload))

def resetMsg : MessageHeader := { handlerKey := Keys.reset, topic := "" }

def ackMsg : MessageHeader := { handlerKey := Keys.heartbeatAck, topic := "" }

def processLocal (now : Time) (header : MessageHeader) (payload : Bytes) (senderId : String) :
    Broker ω × List (Effect ω) :=
  if header.handlerKey = Keys.disconnect then (b.removeClient senderId, [])
  else
    let touched := b.touch senderId now
    if senderId ∉ b.clients then
      (touched, [.sendToClient senderId (Wire.encodeHeader pb resetMsg) []])
    else if header.handlerKey = Keys.connect then (touched, [])
    else if header.handlerKey = Keys.heartbeat then
      (touched, [.sendToClient senderId (Wire.encodeHeader pb ackMsg) []])
    else if header.handlerKey = Keys.subscribe then
      ({ touched with subscriptions := (b.subscriptions.subscribe senderId header.topic).2 }, [])
    else if header.handlerKey = Keys.unsubscribe then
      ({ touched with subscriptions := (b.subscriptions.unsubscribe senderId header.topic).2 }, [])
    else touched.route pb header payload senderId false

def ignoredFromPeer (key : String) : Bool :=
  key == Keys.reset || key == Keys.heartbeatAck || key == Keys.heartbeat

def processMessage (fresh : Uuid) (now : Time) (env : Envelope) (senderId : String)
    (isFromPeer : Bool) : Broker ω × List (Effect ω) :=
  let header := b.stamp fresh env.header
  let tap := Effect.inspect (Wire.encodeHeader pb header) env.payload
  let (b', effects) :=
    if isFromPeer then
      if ignoredFromPeer header.handlerKey then (b, [])
      else b.route pb header env.payload senderId true
    else b.processLocal pb now header env.payload senderId
  (b', tap :: effects)

/-- The ROUTER branch of `run`: count the message, then process it. -/
def processFromRouter (fresh : Uuid) (now : Time) (env : Envelope) (identity : String) :
    Broker ω × List (Effect ω) :=
  let wireBytes := UInt64.ofNat ((pb.serializeHeader env.header).length + env.payload.length)
  processMessage pb
    { b with totalMessages := b.totalMessages + 1
             msgsInterval := b.msgsInterval + 1
             totalBytes := b.totalBytes + wireBytes
             bytesInterval := b.bytesInterval + wireBytes } fresh now env identity false

def processFromPeer (fresh : Uuid) (now : Time) (env : Envelope) : Broker ω × List (Effect ω) :=
  b.processMessage pb fresh now env "PEER" true

/-- The zombie sweep of `run`. The loop erases only the entry it stands on, so it visits the
entries the table had at its start. -/
def sweep (now : Time) : Broker ω :=
  b.clients.entries.foldl
    (fun b e => if now - e.2.lastSeen > clientTimeout then b.removeClient e.1 else b) b

variable {b} in
/-- A sweep is a sequence of removals of stale clients. -/
theorem sweep_induction {P : Broker ω → Prop} (now : Time) (h : P b)
    (hremove : ∀ e ∈ b.clients.entries, now - e.2.lastSeen > clientTimeout → ∀ b', P b' →
      P (b'.removeClient e.1)) : P (b.sweep now) := by
  unfold sweep
  generalize b.clients.entries = l at hremove
  induction l generalizing b with
  | nil => exact h
  | cons e l ih =>
    rw [List.forall_mem_cons] at hremove
    rw [List.foldl_cons]
    split_ifs with hst
    · exact ih (hremove.1 hst b h) hremove.2
    · exact ih h hremove.2

theorem sweep_frame (now : Time) : b.sweep now =
    { b with subscriptions := (b.sweep now).subscriptions, clients := (b.sweep now).clients } := by
  refine sweep_induction (P := fun b' => b' =
    { b with subscriptions := b'.subscriptions, clients := b'.clients }) now rfl ?_
  intro e _ _ b' hb
  rw [removeClient, hb]

def systemStats (now : Time) : SystemStats where
  brokerId := b.brokerId
  clientsCount := Int32.ofNat b.clients.keys.length
  peersCount := Int32.ofNat b.peers.keys.length
  msgsPerSec := b.msgsInterval
  bytesPerSec := b.bytesInterval
  totalMsgs := b.totalMessages
  uptimeSec := (now - b.startTime).tdiv (seconds 1)
  connectedClients :=
    b.clients.keys.map fun id => (id, (b.subscriptions.subscriptionsOf id).getD [])

def statsMsg : MessageHeader :=
  { handlerKey := Keys.sysStats, topic := Keys.sysStats, senderId := "BROKER_SYSTEM" }

def broadcastStats (now : Time) : List (Effect ω) :=
  let payload := pb.packStats (b.systemStats now)
  let headerBytes := Wire.encodeHeader pb statsMsg
  .inspect headerBytes payload ::
    ((b.subscriptions.subscribersOf Keys.sysStats).getD []).map fun id =>
      .sendToClient id headerBytes payload

/-- The map update of `addPeer`, which does nothing for a key that is taken. -/
def addPeer (key : String) (peer : ω) : Broker ω :=
  if key ∈ b.peers then b else { b with peers := b.peers.insert key peer }

theorem addPeer_frame (key : String) (peer : ω) :
    b.addPeer key peer = { b with peers := (b.addPeer key peer).peers } := by
  unfold addPeer
  split_ifs <;> rfl

def removePeer (key : String) : Broker ω := { b with peers := b.peers.erase key }

inductive Event (ω : Type*)
  | fromRouter (fresh : Uuid) (now : Time) (env : Envelope) (identity : String)
  | fromPeer (fresh : Uuid) (now : Time) (env : Envelope)
  | sweep (now : Time)
  | broadcastStats (now : Time)
  | addPeer (key : String) (peer : ω)
  | removePeer (key : String)

def step : Event ω → Broker ω × List (Effect ω)
  | .fromRouter fresh now env identity => b.processFromRouter pb fresh now env identity
  | .fromPeer fresh now env => b.processFromPeer pb fresh now env
  | .sweep now => (b.sweep now, [])
  | .broadcastStats now =>
    ({ b with lastStatsTime := now, msgsInterval := 0, bytesInterval := 0 },
      b.broadcastStats pb now)
  | .addPeer key peer => (b.addPeer key peer, [])
  | .removePeer key => (b.removePeer key, [])

def Initial : Prop := ∃ id t, b = { brokerId := id, startTime := t, lastStatsTime := t }

def Steps (b : Broker ω) (e : Event ω) (b' : Broker ω) : Prop := b' = (b.step pb e).1

/-- The states of the broker thread under any sequence of inputs. -/
abbrev Reachable : Broker ω → Prop := TransitionSystem.Reachable Initial (Steps pb)

end Broker

end ZmqPubSub
