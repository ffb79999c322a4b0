import Mathlib.Data.List.Sort
import ZmqPubSub.Containers
import ZmqPubSub.Wire

/-!
The state of a `ConnectionManager` and of the `ZmqWorker` it owns, with queues that do not
overflow. What runs under `m_mapMutex` is a function; a callback is an opaque `κ`.
-/

namespace ZmqPubSub

open Containers

structure CallbackEntry (κ : Type*) where
  /-- The `void* instance` under which the callback was registered. -/
  owner : ℕ
  func : κ

structure ConnectionManager (κ : Type*) where
  clientId : String
  msgHandlers : Table String (List (CallbackEntry κ)) := ∅
  connected : Bool := false
  /-- `m_isOnline` of the worker. -/
  isOnline : Bool := false
  controlQueue : List Envelope := []
  outboundQueue : List Envelope := []
  /-- `m_queue`, between the worker and the processing thread. -/
  inboundQueue : List Envelope := []

namespace ConnectionManager

variable {κ : Type*} (m : ConnectionManager κ)

/-- The keys of `m_msgHandlers` in the order of a `std::map`. -/
def topics : List String := m.msgHandlers.keys.insertionSort (· ≤ ·)

def sendRawEnvelope (env : Envelope) : ConnectionManager κ :=
  if Keys.isControlMessage env.key then { m with controlQueue := m.controlQueue ++ [env] }
  else { m with outboundQueue := m.outboundQueue ++ [env] }

/-- The message of `sendMessage`, `sendData` and `sendDataRaw`. -/
def dataEnvelope (key : String) (data : Bytes) : Envelope :=
  { header := { handlerKey := key, senderId := m.clientId, topic := key }, payload := data }

def sendDataInternal (key : String) (data : Bytes) : ConnectionManager κ :=
  m.sendRawEnvelope (m.dataEnvelope key data)

/-- The message of `sendRequest`. -/
def requestEnvelope (requestTopic replyTopic : String) (payload : Bytes) : Envelope :=
  { header := { handlerKey := requestTopic, senderId := m.clientId, topic := requestTopic,
                replyTopic := replyTopic }
    payload := payload }

/-- `currentReplyTopic` is the reply topic of the message whose callback replies. -/
def sendReplyEnvelope (currentReplyTopic : String) (payload : Bytes) :
    Bool × ConnectionManager κ :=
  if currentReplyTopic = "" then (false, m)
  else (true, m.sendRawEnvelope (m.dataEnvelope currentReplyTopic payload))

/-- The loop over `m_msgHandlers` that `resubscribeAll` and the status handler share. -/
def sendSubscriptions : ConnectionManager κ :=
  m.topics.foldl
    (fun m topic => m.sendRawEnvelope (createControlEnvelope Keys.subscribe m.clientId topic)) m

def resubscribeAll : ConnectionManager κ := m.sendSubscriptions

def statusHandler (connected : Bool) : ConnectionManager κ :=
  let m := { m with connected := connected }
  if connected then
    (m.sendRawEnvelope (createControlEnvelope Keys.connect m.clientId "")).sendSubscriptions
  else m

def performRegistration (key : String) (callback : κ) (owner : ℕ) : ConnectionManager κ :=
  let entry : CallbackEntry κ := ⟨owner, callback⟩
  let entries := (m.msgHandlers.lookup key).getD []
  let m := { m with msgHandlers := m.msgHandlers.insert key (entries ++ [entry]) }
  if m.connected then m.sendRawEnvelope (createControlEnvelope Keys.subscribe m.clientId key) else m

def performUnregistration (key : String) (owner : ℕ) : ConnectionManager κ :=
  match m.msgHandlers.lookup key with
  | none => m
  | some entries =>
    let entries := entries.filter fun entry => entry.owner != owner
    if entries.isEmpty then
      let m := { m with msgHandlers := m.msgHandlers.erase key }
      if m.connected then m.sendRawEnvelope (createControlEnvelope Keys.unsubscribe m.clientId key)
      else m
    else { m with msgHandlers := m.msgHandlers.insert key entries }

/-- `ZmqWorker::run` on a received message: the status handler on the way online, then the inbound
queue, which acknowledgements do not enter. -/
def receive (inbound : Envelope) : ConnectionManager κ :=
  let m := if m.isOnline then m else { m with isOnline := true }.statusHandler true
  if inbound.key = Keys.heartbeatAck then m
  else { m with inboundQueue := m.inboundQueue ++ [inbound] }

/-- `ZmqWorker::run` after `SERVER_TIMEOUT` without a message. -/
def serverTimeout : ConnectionManager κ := { m with isOnline := false }.statusHandler false

/-- The topic has callbacks, and all of them were registered under `owner`. -/
def OnlyOwner (key : String) (owner : ℕ) : Prop :=
  ∃ entries, m.msgHandlers.lookup key = some entries ∧ ∀ entry ∈ entries, entry.owner = owner

instance (key : String) (owner : ℕ) : Decidable (m.OnlyOwner key owner) :=
  decidable_of_iff
    (∃ entries ∈ m.msgHandlers.lookup key, ∀ entry ∈ entries, entry.owner = owner) Iff.rfl

/-- What `handleMessage` copies under `m_mapMutex`. -/
def callbacks (topic : String) : List (CallbackEntry κ) := (m.msgHandlers.lookup topic).getD []

variable {m}

theorem mem_topics (t : String) : t ∈ m.topics ↔ t ∈ m.msgHandlers := by
  rw [topics, (List.perm_insertionSort _ _).mem_iff, AList.mem_keys]

theorem sendRawEnvelope_createControl {key : String} (h : Keys.isControlMessage key = true)
    (clientId topic : String) : m.sendRawEnvelope (createControlEnvelope key clientId topic) =
      { m with controlQueue := m.controlQueue ++ [createControlEnvelope key clientId topic] } :=
  if_pos h

theorem sendRawEnvelope_of_data {env : Envelope} (h : Keys.isControlMessage env.key = false) :
    m.sendRawEnvelope env = { m with outboundQueue := m.outboundQueue ++ [env] } := by
  simp [sendRawEnvelope, h]

theorem msgHandlers_sendRawEnvelope (env : Envelope) :
    (m.sendRawEnvelope env).msgHandlers = m.msgHandlers := by
  unfold sendRawEnvelope
  split_ifs <;> rfl

theorem sendSubscriptions_eq : m.sendSubscriptions = { m with
    controlQueue := m.controlQueue ++
      m.topics.map (createControlEnvelope Keys.subscribe m.clientId) } := by
  unfold sendSubscriptions
  generalize m.topics = ts
  induction ts generalizing m with
  | nil => simp
  | cons t ts ih =>
    rw [List.foldl_cons, ih, sendRawEnvelope_createControl (by decide)]
    simp

theorem statusHandler_true : m.statusHandler true = { m with
    connected := true
    controlQueue := m.controlQueue ++ createControlEnvelope Keys.connect m.clientId "" ::
      m.topics.map (createControlEnvelope Keys.subscribe m.clientId) } := by
  simp only [statusHandler, if_true]
  rw [sendRawEnvelope_createControl (by decide), sendSubscriptions_eq]
  simp [topics]

theorem msgHandlers_statusHandler (connected : Bool) :
    (m.statusHandler connected).msgHandlers = m.msgHandlers := by
  cases connected with
  | true => rw [statusHandler_true]
  | false => rfl

theorem performRegistration_eq (key : String) (callback : κ) (owner : ℕ) :
    m.performRegistration key callback owner = { m with
      msgHandlers := m.msgHandlers.insert key
        ((m.msgHandlers.lookup key).getD [] ++ [⟨owner, callback⟩])
      controlQueue := m.controlQueue ++
        if m.connected then [createControlEnvelope Keys.subscribe m.clientId key] else [] } := by
  unfold performRegistration
  dsimp only
  split_ifs
  · rw [sendRawEnvelope_createControl (by decide)]
  · simp

/-- Unregistering either leaves the set of topics and the queues alone, or removes the last
callback of a topic. -/
theorem performUnregistration_cases (key : String) (owner : ℕ) :
    (∃ handlers, m.performUnregistration key owner = { m with msgHandlers := handlers } ∧
      ∀ t, t ∈ handlers ↔ t ∈ m.msgHandlers) ∨
    (m.OnlyOwner key owner ∧ m.performUnregistration key owner = { m with
      msgHandlers := m.msgHandlers.erase key
      controlQueue := m.controlQueue ++
        if m.connected then [createControlEnvelope Keys.unsubscribe m.clientId key] else [] }) := by
  unfold performUnregistration
  cases hl : m.msgHandlers.lookup key with
  | none => exact Or.inl ⟨m.msgHandlers, rfl, fun _ => Iff.rfl⟩
  | some entries =>
    dsimp only
    by_cases he : (entries.filter fun entry => entry.owner != owner).isEmpty
    · have ho : ∀ entry ∈ entries, entry.owner = owner := by
        simpa [List.filter_eq_nil_iff] using he
      refine Or.inr ⟨⟨entries, hl, ho⟩, ?_⟩
      rw [if_pos he]
      split_ifs
      · rw [sendRawEnvelope_createControl (by decide)]
      · simp
    · left
      rw [if_neg he]
      refine ⟨_, rfl, fun t => ?_⟩
      have hk : key ∈ m.msgHandlers := mem_table_iff.mpr ⟨entries, hl⟩
      rw [AList.mem_insert]
      exact or_iff_right_of_imp fun ht => ht ▸ hk

theorem mem_callbacks {key : String} {entry : CallbackEntry κ} :
    entry ∈ m.callbacks key ↔ ∃ entries, m.msgHandlers.lookup key = some entries ∧
      entry ∈ entries := by
  unfold callbacks
  cases m.msgHandlers.lookup key with
  | none => simp
  | some entries => simp

theorem lookup_performRegistration (key : String) (callback : κ) (owner : ℕ) (k : String) :
    (m.performRegistration key callback owner).msgHandlers.lookup k =
      if k = key then some (m.callbacks key ++ [⟨owner, callback⟩])
      else m.msgHandlers.lookup k := by
  rw [performRegistration_eq]
  by_cases hk : k = key
  · rw [if_pos hk, hk]
    exact AList.lookup_insert _
  · rw [if_neg hk]
    exact AList.lookup_insert_ne hk

theorem callbacks_performRegistration (key : String) (callback : κ) (owner : ℕ) (k : String) :
    (m.performRegistration key callback owner).callbacks k =
      if k = key then m.callbacks key ++ [⟨owner, callback⟩] else m.callbacks k := by
  rw [callbacks, lookup_performRegistration]
  split_ifs with hk
  · rfl
  · rfl

/-- A topic whose last callback goes is erased, so that no topic is left with an empty list. -/
theorem lookup_performUnregistration (key : String) (owner : ℕ) (k : String) :
    (m.performUnregistration key owner).msgHandlers.lookup k =
      if k = key then
        (m.msgHandlers.lookup key).bind fun entries =>
          let rest := entries.filter fun entry => entry.owner != owner
          if rest.isEmpty then none else some rest
      else m.msgHandlers.lookup k := by
  unfold performUnregistration
  cases hl : m.msgHandlers.lookup key with
  | none =>
    dsimp only
    split_ifs with hk
    · rw [hk, hl]
      rfl
    · rfl
  | some entries =>
    dsimp only [Option.bind_some]
    by_cases he : (entries.filter fun entry => entry.owner != owner).isEmpty
    · rw [if_pos he, if_pos he]
      have hm : (m.msgHandlers.erase key).lookup k =
          if k = key then none else m.msgHandlers.lookup k := by
        by_cases hk : k = key
        · rw [if_pos hk, hk]
          exact AList.lookup_erase _ _
        · rw [if_neg hk]
          exact AList.lookup_erase_ne hk
      by_cases hc : m.connected
      · rw [if_pos hc, sendRawEnvelope_createControl (by decide)]
        exact hm
      · rw [if_neg hc]
        exact hm
    · rw [if_neg he, if_neg he]
      split_ifs with hk
      · rw [hk]
        exact AList.lookup_insert _
      · exact AList.lookup_insert_ne hk

theorem callbacks_performUnregistration (key : String) (owner : ℕ) (k : String) :
    (m.performUnregistration key owner).callbacks k =
      if k = key then (m.callbacks key).filter (fun entry => entry.owner != owner)
      else m.callbacks k := by
  rw [callbacks, lookup_performUnregistration]
  split_ifs with hk
  · unfold callbacks
    cases m.msgHandlers.lookup key with
    | none => rfl
    | some entries =>
      dsimp only [Option.bind_some, Option.getD_some]
      split_ifs with he
      · exact (List.isEmpty_iff.mp he).symm
      · rfl
  · rfl

def NoEmptyEntry (m : ConnectionManager κ) : Prop := ∀ key, m.msgHandlers.lookup key ≠ some []

theorem NoEmptyEntry.lookup_eq (h : m.NoEmptyEntry) (key : String) :
    m.msgHandlers.lookup key =
      if (m.callbacks key).isEmpty then none else some (m.callbacks key) := by
  unfold callbacks
  cases hl : m.msgHandlers.lookup key with
  | none => rfl
  | some entries =>
    cases entries with
    | nil => exact absurd hl (h key)
    | cons entry entries => rfl

theorem NoEmptyEntry.performRegistration (h : m.NoEmptyEntry) (key : String) (callback : κ)
    (owner : ℕ) : (m.performRegistration key callback owner).NoEmptyEntry := by
  intro k
  rw [lookup_performRegistration]
  split_ifs
  · simp
  · exact h k

theorem NoEmptyEntry.performUnregistration (h : m.NoEmptyEntry) (key : String) (owner : ℕ) :
    (m.performUnregistration key owner).NoEmptyEntry := by
  intro k
  rw [lookup_performUnregistration]
  split_ifs with hk
  · intro he
    obtain ⟨entries, -, hr⟩ := Option.bind_eq_some_iff.mp he
    dsimp only at hr
    split_ifs at hr with hempty
    rw [Option.some.inj hr] at hempty
    exact hempty rfl
  · exact h k

theorem outboundQueue_performUnregistration (key : String) (owner : ℕ) :
    (m.performUnregistration key owner).outboundQueue = m.outboundQueue := by
  rcases m.performUnregistration_cases key owner with ⟨handlers, he, -⟩ | ⟨-, he⟩
  · rw [he]
  · rw [he]

theorem clientId_receive (inbound : Envelope) : (m.receive inbound).clientId = m.clientId := by
  unfold receive
  rw [statusHandler_true]
  split_ifs <;> rfl

theorem outboundQueue_receive (inbound : Envelope) :
    (m.receive inbound).outboundQueue = m.outboundQueue := by
  unfold receive
  rw [statusHandler_true]
  split_ifs <;> rfl

end ConnectionManager

end ZmqPubSub
