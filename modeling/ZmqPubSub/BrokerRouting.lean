import ZmqPubSub.Broker
import ZmqPubSub.BrokerProto

/-!
The invariant that ties the registry to the client table, what one call of `processMessage` does
to each part of the broker state, and to whom its routing stage sends.
-/

namespace ZmqPubSub

open Containers HistoryWindow SubscriptionRegistry

namespace Effect

variable {ω : Type*}

/-- The `sendToClient` calls among the effects: client, header bytes, payload. -/
def clientSends : List (Effect ω) → List (String × Bytes × Bytes) :=
  List.filterMap fun
    | .sendToClient id headerBytes payload => some (id, headerBytes, payload)
    | _ => none

def peerSends : List (Effect ω) → List (ω × Envelope) :=
  List.filterMap fun
    | .writeMessage peer env => some (peer, env)
    | _ => none

def dedupCalls : List (Effect ω) → List (String × Bool) :=
  List.filterMap fun
    | .dedup _ uuid duplicate => some (uuid, duplicate)
    | _ => none

theorem clientSends_append (xs ys : List (Effect ω)) :
    clientSends (xs ++ ys) = clientSends xs ++ clientSends ys := List.filterMap_append

theorem peerSends_append (xs ys : List (Effect ω)) :
    peerSends (xs ++ ys) = peerSends xs ++ peerSends ys := List.filterMap_append

theorem mem_clientSends {effects : List (Effect ω)} {id : String} {headerBytes payload : Bytes} :
    (id, headerBytes, payload) ∈ clientSends effects ↔
      .sendToClient id headerBytes payload ∈ effects := by
  simp only [clientSends, List.mem_filterMap]
  constructor
  · rintro ⟨e, he, h⟩
    cases e <;> simp_all
  · intro h
    exact ⟨_, h, rfl⟩

end Effect

namespace Broker

variable {ω : Type*} {pb : Protobuf} {b : Broker ω}

/-- Both sides of the registry hold one set of pairs, and its clients are in the table. -/
def WellFormed (b : Broker ω) : Prop :=
  ∃ S : Pairs, b.subscriptions.Represents S ∧ ∀ p ∈ S, p.1 ∈ b.clients

theorem WellFormed.mono {b' : Broker ω} (h : b.WellFormed)
    (hs : b'.subscriptions = b.subscriptions) (hc : ∀ c ∈ b.clients, c ∈ b'.clients) :
    b'.WellFormed := by
  obtain ⟨S, hr, hk⟩ := h
  exact ⟨S, hs ▸ hr, fun p hp => hc _ (hk p hp)⟩

theorem wellFormed_initial (h : b.Initial) : b.WellFormed := by
  obtain ⟨id, t, rfl⟩ := h
  exact ⟨∅, represents_empty, fun _ hp => hp.elim⟩

theorem WellFormed.removeClient (h : b.WellFormed) (c : String) :
    (b.removeClient c).WellFormed := by
  obtain ⟨S, hr, hk⟩ := h
  refine ⟨_, removeClient_represents hr c, ?_⟩
  rintro p ⟨hp, hne⟩
  exact AList.mem_erase.mpr ⟨hne, hk p hp⟩

theorem WellFormed.subscribe {b' : Broker ω} (h : b.WellFormed) {c t : String}
    (hs : b'.subscriptions = (b.subscriptions.subscribe c t).2)
    (hc : ∀ x, x = c ∨ x ∈ b.clients → x ∈ b'.clients) : b'.WellFormed := by
  obtain ⟨S, hr, hk⟩ := h
  refine ⟨_, hs ▸ subscribe_represents hr c t, ?_⟩
  rintro p (rfl | hp)
  · exact hc _ (Or.inl rfl)
  · exact hc _ (Or.inr (hk p hp))

theorem WellFormed.unsubscribe {b' : Broker ω} (h : b.WellFormed) {c t : String}
    (hs : b'.subscriptions = (b.subscriptions.unsubscribe c t).2)
    (hc : ∀ x ∈ b.clients, x ∈ b'.clients) : b'.WellFormed := by
  obtain ⟨S, hr, hk⟩ := h
  exact ⟨_, hs ▸ unsubscribe_represents hr c t, fun p hp => hc _ (hk p hp.1)⟩

/-- The routing stage touches nothing but the dedup window. -/
theorem route_fst (header : MessageHeader) (payload : Bytes) (senderId : String)
    (isFromPeer : Bool) : (b.route pb header payload senderId isFromPeer).1 =
      { b with window := (check maxHistorySize b.window header.messageUuid).2 } := by
  unfold route isDuplicate
  dsimp only
  split_ifs <;> rfl

theorem WellFormed.touch (h : b.WellFormed) (c : String) (now : Time) :
    (b.touch c now).WellFormed :=
  h.mono rfl fun _ hx => (AList.mem_insert _).mpr (Or.inr hx)

theorem WellFormed.processLocal (h : b.WellFormed) (now : Time) (header : MessageHeader)
    (payload : Bytes) (senderId : String) :
    (b.processLocal pb now header payload senderId).1.WellFormed := by
  have ht := h.touch senderId now
  have hc : ∀ x, x = senderId ∨ x ∈ b.clients → x ∈ (b.touch senderId now).clients :=
    fun x hx => (AList.mem_insert _).mpr hx
  unfold Broker.processLocal
  dsimp only
  split_ifs
  · exact h.removeClient senderId
  · exact ht
  · exact ht
  · exact h.subscribe rfl hc
  · exact h.unsubscribe rfl fun x hx => hc x (Or.inr hx)
  · rw [route_fst]
    exact ht.mono rfl fun _ hx => hx
  · exact ht

theorem WellFormed.processMessage (h : b.WellFormed) (fresh : Uuid) (now : Time) (env : Envelope)
    (senderId : String) (isFromPeer : Bool) :
    (b.processMessage pb fresh now env senderId isFromPeer).1.WellFormed := by
  cases isFromPeer with
  | false => exact h.processLocal now _ env.payload senderId
  | true =>
    simp only [Broker.processMessage, if_true]
    split_ifs
    · exact h
    · rw [route_fst]
      exact h.mono rfl fun _ hx => hx

theorem WellFormed.sweep (h : b.WellFormed) (now : Time) : (b.sweep now).WellFormed :=
  sweep_induction (P := WellFormed) now h fun e _ _ _ h => h.removeClient e.1

theorem WellFormed.step (h : b.WellFormed) (e : Event ω) : (b.step pb e).1.WellFormed := by
  cases e with
  | fromRouter fresh now env identity =>
    refine WellFormed.processMessage ?_ fresh now env identity false
    exact h.mono rfl fun _ hx => hx
  | fromPeer fresh now env => exact h.processMessage fresh now env "PEER" true
  | sweep now => exact h.sweep now
  | broadcastStats now => exact h.mono rfl fun _ hx => hx
  | addPeer key peer =>
    rw [Broker.step, addPeer_frame]
    exact h.mono rfl fun _ hx => hx
  | removePeer key => exact h.mono rfl fun _ hx => hx

theorem Reachable.wellFormed (h : Reachable pb b) : b.WellFormed :=
  h.invariant (fun _ => wellFormed_initial) fun _ e _ ht he => he ▸ ht.step e

theorem WellFormed.subscriber_known (h : b.WellFormed) {t c : String}
    (hc : c ∈ (b.subscriptions.subscribersOf t).getD []) : c ∈ b.clients := by
  obtain ⟨S, hr, hk⟩ := h
  exact hk (c, t) ((hr.topics.mem_getD t c).mp hc)

/-- Whoever has an entry on either side of the registry is in `m_clients`; so the "still connected"
check of `deliver` never fires for a subscriber, and `broadcastStats`, which has no such check,
only addresses known clients. -/
theorem subscriptions_belong_to_clients (h : Reachable pb b) :
    (∀ c, b.subscriptions.subscriptionsOf c ≠ none → c ∈ b.clients) ∧
    (∀ t subs, b.subscriptions.subscribersOf t = some subs → ∀ c ∈ subs, c ∈ b.clients) ∧
    (∀ t, ∀ c ∈ (b.subscriptions.subscribersOf t).getD [],
      ∀ headerBytes payload senderId isFromPeer,
      b.deliver headerBytes payload senderId isFromPeer c =
        if isFromPeer = false ∧ c = senderId then [] else [.sendToClient c headerBytes payload]) ∧
    (∀ now c headerBytes payload,
      .sendToClient c headerBytes payload ∈ b.broadcastStats pb now → c ∈ b.clients) := by
  have hw := h.wellFormed
  refine ⟨?_, ?_, ?_, ?_⟩
  · intro c hc
    obtain ⟨S, hr, hk⟩ := hw
    rw [Ne, SubscriptionRegistry.subscriptionsOf, hr.clients.lookup_eq_none] at hc
    obtain ⟨t, ht⟩ := not_forall_not.mp hc
    exact hk (c, t) ht
  · intro t subs ht c hc
    exact hw.subscriber_known (t := t) (by simpa [ht] using hc)
  · intro t c hc headerBytes payload senderId isFromPeer
    have hk := hw.subscriber_known hc
    simp [deliver, hk]
  · intro now c headerBytes payload hc
    simp only [Broker.broadcastStats, List.mem_cons, reduceCtorEq, List.mem_map,
      Effect.sendToClient.injEq, false_or] at hc
    obtain ⟨id, hid, rfl, -, -⟩ := hc
    exact hw.subscriber_known hid

theorem reachable_foldl_step (h : Reachable pb b) (es : List (Event ω)) :
    Reachable pb (es.foldl (fun b e => (b.step pb e).1) b) := by
  induction es generalizing b with
  | nil => exact h
  | cons e es ih => exact ih (h.tail rfl)

/-- Two clients complete the handshake and the first one subscribes. -/
def twoClients : Broker Unit :=
  [Event.fromRouter ⟨"00000000-0000-4000-8000-000000000001", rfl⟩ 0 (heartbeatEnvelope "client-a")
      "client-a",
    .fromRouter ⟨"00000000-0000-4000-8000-000000000002", rfl⟩ 0
      (createControlEnvelope Keys.subscribe "client-a" "news") "client-a",
    .fromRouter ⟨"00000000-0000-4000-8000-000000000003", rfl⟩ 0 (heartbeatEnvelope "client-b")
      "client-b"].foldl (fun b e => (b.step BrokerProto.proto3 e).1) { brokerId := "broker-1" }

theorem twoClients_reachable : Reachable BrokerProto.proto3 twoClients :=
  reachable_foldl_step ⟨_, [], ⟨"broker-1", 0, rfl⟩, .nil _⟩ _

theorem subscriptions_belong_to_clients_twoClients :
    twoClients.subscriptions.subscriptionsOf "client-a" ≠ none ∧ "client-a" ∈ twoClients.clients :=
  have h : twoClients.subscriptions.subscriptionsOf "client-a" ≠ none := by decide
  ⟨h, (subscriptions_belong_to_clients twoClients_reachable).1 "client-a" h⟩

/-- The keys that the local branch of `processMessage` handles itself. -/
def consumedLocally (key : String) : Bool :=
  key == Keys.disconnect || key == Keys.connect || key == Keys.heartbeat ||
    key == Keys.subscribe || key == Keys.unsubscribe

theorem ignoredFromPeer_of_data {key : String} (h : Keys.isControlMessage key = false) :
    ignoredFromPeer key = false := by
  simp only [Keys.isControlMessage, ignoredFromPeer, Bool.or_eq_false_iff] at h ⊢
  simp [h]

/-- From a known local client with a key that is not consumed, or from a peer with a key that is
not ignored. -/
def Routes (b : Broker ω) (key senderId : String) (isFromPeer : Bool) : Prop :=
  (isFromPeer = true ∧ ignoredFromPeer key = false) ∨
    (isFromPeer = false ∧ senderId ∈ b.clients ∧ consumedLocally key = false)

/-- The broker in the state in which the routing stage finds it. -/
def seated (b : Broker ω) (now : Time) (senderId : String) (isFromPeer : Bool) : Broker ω :=
  if isFromPeer then b else b.touch senderId now

@[simp] theorem seated_subscriptions (now : Time) (senderId : String) (isFromPeer : Bool) :
    (b.seated now senderId isFromPeer).subscriptions = b.subscriptions := by
  cases isFromPeer <;> rfl

@[simp] theorem seated_window (now : Time) (senderId : String) (isFromPeer : Bool) :
    (b.seated now senderId isFromPeer).window = b.window := by
  cases isFromPeer <;> rfl

@[simp] theorem seated_peers (now : Time) (senderId : String) (isFromPeer : Bool) :
    (b.seated now senderId isFromPeer).peers = b.peers := by
  cases isFromPeer <;> rfl

theorem WellFormed.seated (h : b.WellFormed) (now : Time) (senderId : String) (isFromPeer : Bool) :
    (b.seated now senderId isFromPeer).WellFormed := by
  cases isFromPeer with
  | false => exact h.touch senderId now
  | true => exact h

theorem mem_seated_clients {now : Time} {key senderId : String} {isFromPeer : Bool}
    (h : b.Routes key senderId isFromPeer) (c : String) :
    c ∈ (b.seated now senderId isFromPeer).clients ↔ c ∈ b.clients := by
  rcases h with ⟨rfl, -⟩ | ⟨rfl, hs, -⟩
  · rfl
  · change c ∈ b.clients.insert _ _ ↔ _
    rw [AList.mem_insert]
    exact or_iff_right_of_imp fun he => he ▸ hs

@[simp] theorem stamp_handlerKey (fresh : Uuid) (header : MessageHeader) :
    (b.stamp fresh header).handlerKey = header.handlerKey := by
  unfold stamp
  split_ifs <;> rfl

@[simp] theorem stamp_topic (fresh : Uuid) (header : MessageHeader) :
    (b.stamp fresh header).topic = header.topic := by
  unfold stamp
  split_ifs <;> rfl

theorem stamp_of_ne {fresh : Uuid} {header : MessageHeader} (h : header.messageUuid ≠ "") :
    b.stamp fresh header = header := if_neg h

theorem stamp_messageUuid_ne (fresh : Uuid) (header : MessageHeader) :
    (b.stamp fresh header).messageUuid ≠ "" := by
  unfold stamp
  split_ifs with h
  · exact fresh.ne_empty
  · exact h

/-- A message that reaches the routing stage is tapped, seated and routed. -/
theorem processMessage_of_routes {fresh : Uuid} {now : Time} {env : Envelope} {senderId : String}
    {isFromPeer : Bool} (h : b.Routes env.key senderId isFromPeer) :
    b.processMessage pb fresh now env senderId isFromPeer =
      (((b.seated now senderId isFromPeer).route pb (b.stamp fresh env.header) env.payload senderId
          isFromPeer).1,
        .inspect (Wire.encodeHeader pb (b.stamp fresh env.header)) env.payload ::
          ((b.seated now senderId isFromPeer).route pb (b.stamp fresh env.header) env.payload
            senderId isFromPeer).2) := by
  rcases h with ⟨rfl, hk⟩ | ⟨rfl, hs, hk⟩
  · have hk' : ignoredFromPeer env.header.handlerKey = false := hk
    simp [processMessage, hk', seated]
  · simp only [consumedLocally, Envelope.key, Bool.or_eq_false_iff, beq_eq_false_iff_ne,
      ne_eq] at hk
    obtain ⟨⟨⟨⟨h1, h2⟩, h3⟩, h4⟩, h5⟩ := hk
    simp [processMessage, processLocal, seated, hs, h1, h2, h3, h4, h5]

/-- Any other message leaves the window and the peers alone and is answered, if at all, with a RESET
or an acknowledgement to its sender. -/
theorem processMessage_of_not_routes {fresh : Uuid} {now : Time} {env : Envelope}
    {senderId : String} {isFromPeer : Bool} (h : ¬ b.Routes env.key senderId isFromPeer) :
    (b.processMessage pb fresh now env senderId isFromPeer).1.window = b.window ∧
    (b.processMessage pb fresh now env senderId isFromPeer).1.peers = b.peers ∧
    ∃ answer, (b.processMessage pb fresh now env senderId isFromPeer).2 =
        .inspect (Wire.encodeHeader pb (b.stamp fresh env.header)) env.payload :: answer ∧
      ∀ e ∈ answer, ∃ header : MessageHeader, (header = resetMsg ∨ header = ackMsg) ∧
        e = .sendToClient senderId (Wire.encodeHeader pb header) [] := by
  cases isFromPeer with
  | true =>
    have hk : ignoredFromPeer env.header.handlerKey = true := by
      by_contra hk
      exact h (Or.inl ⟨rfl, by simpa [Envelope.key] using hk⟩)
    simp [processMessage, hk]
  | false =>
    simp only [processMessage, processLocal, stamp_handlerKey, Bool.false_eq_true, if_false]
    split_ifs with h1 h2 h3 h4 h5 h6
    · exact ⟨rfl, rfl, [], rfl, by simp⟩
    · exact ⟨rfl, rfl, [], rfl, by simp⟩
    · exact ⟨rfl, rfl, _, rfl, by simp⟩
    · exact ⟨rfl, rfl, [], rfl, by simp⟩
    · exact ⟨rfl, rfl, [], rfl, by simp⟩
    · exact absurd (Or.inr ⟨rfl, h2, by simp [consumedLocally, Envelope.key, h1, h3, h4, h5, h6]⟩) h
    · exact ⟨rfl, rfl, _, rfl, by simp⟩

/-- The clients that `deliverLocal` sends to, in order. -/
def recipients (b : Broker ω) (topic senderId : String) (isFromPeer : Bool) : List String :=
  let exactSubs := (b.subscriptions.subscribersOf topic).getD []
  let wildcardSubs := if topic = "" then [] else (b.subscriptions.subscribersOf "").getD []
  (exactSubs ++ wildcardSubs.filter fun id => id ∉ exactSubs).filter fun id =>
    ¬ (isFromPeer = false ∧ id = senderId) ∧ id ∈ b.clients

theorem deliverLocal_eq (header : MessageHeader) (headerBytes payload : Bytes) (senderId : String)
    (isFromPeer : Bool) : b.deliverLocal header headerBytes payload senderId isFromPeer =
      (b.recipients header.topic senderId isFromPeer).map fun id =>
        .sendToClient id headerBytes payload := by
  have hw : (if header.topic = "" then none else b.subscriptions.subscribersOf "").getD [] =
      if header.topic = "" then [] else (b.subscriptions.subscribersOf "").getD [] := by
    split_ifs <;> rfl
  unfold deliverLocal recipients
  dsimp only
  rw [hw, List.filter_append, List.map_append]
  congr 1
  · refine flatMap_eq_filter_map _ _ fun id => ?_
    unfold deliver
    split_ifs <;> simp_all
  · rw [List.filter_filter]
    refine flatMap_eq_filter_map _ _ fun id => ?_
    unfold deliver
    split_ifs <;> simp_all

theorem recipients_nodup (h : b.WellFormed) (topic senderId : String) (isFromPeer : Bool) :
    (b.recipients topic senderId isFromPeer).Nodup := by
  obtain ⟨S, hr, -⟩ := h
  refine List.Nodup.filter _ (List.Nodup.append (hr.topics.nodup_getD topic) ?_ ?_)
  · refine List.Nodup.filter _ ?_
    split_ifs
    · exact List.nodup_nil
    · exact hr.topics.nodup_getD ""
  · intro id hid hid'
    simp only [List.mem_filter, decide_eq_true_eq] at hid'
    exact hid'.2 hid

/-- `c` holds a subscription to `topic`. -/
def Subscribed (b : Broker ω) (c topic : String) : Prop :=
  topic ∈ (b.subscriptions.subscriptionsOf c).getD []

instance (b : Broker ω) (c topic : String) : Decidable (b.Subscribed c topic) :=
  inferInstanceAs (Decidable (_ ∈ _))

theorem WellFormed.subscribed_iff (h : b.WellFormed) {c topic : String} :
    b.Subscribed c topic ↔ c ∈ (b.subscriptions.subscribersOf topic).getD [] := by
  obtain ⟨S, hr, -⟩ := h
  rw [Subscribed, SubscriptionRegistry.subscriptionsOf, hr.clients.mem_getD,
    SubscriptionRegistry.subscribersOf, hr.topics.mem_getD]

theorem mem_recipients (h : b.WellFormed) {topic senderId : String} {isFromPeer : Bool}
    {c : String} : c ∈ b.recipients topic senderId isFromPeer ↔
      c ∈ b.clients ∧ (b.Subscribed c topic ∨ b.Subscribed c "") ∧
        ¬ (isFromPeer = false ∧ c = senderId) := by
  have hl : (c ∈ (b.subscriptions.subscribersOf topic).getD [] ∨
        c ∈ (if topic = "" then [] else (b.subscriptions.subscribersOf "").getD []) ∧
          c ∉ (b.subscriptions.subscribersOf topic).getD []) ↔
      b.Subscribed c topic ∨ b.Subscribed c "" := by
    rw [h.subscribed_iff, h.subscribed_iff]
    split_ifs with ht
    · simp [ht]
    · tauto
  simp only [recipients, List.mem_filter, List.mem_append, decide_eq_true_eq, hl]
  tauto

/-- The calls of the routing stage, in order. -/
theorem route_snd (header : MessageHeader) (payload : Bytes) (senderId : String)
    (isFromPeer : Bool) : (b.route pb header payload senderId isFromPeer).2 =
      .dedup (if isFromPeer then none else some senderId) header.messageUuid
          (decide (header.messageUuid ∈ b.window.seen)) ::
        if header.messageUuid ∈ b.window.seen then []
        else (b.recipients header.topic senderId isFromPeer).map
            (fun id => .sendToClient id (Wire.encodeHeader pb header) payload) ++
          b.floodPeers header payload := by
  unfold route isDuplicate
  dsimp only
  rw [check_fst]
  by_cases h : header.messageUuid ∈ b.window.seen
  · simp [h]
  · simp only [h, decide_false, Bool.false_eq_true, if_false]
    rw [deliverLocal_eq]
    rfl

theorem clientSends_recipients (ids : List String) (headerBytes payload : Bytes) :
    Effect.clientSends (ids.map fun id => (.sendToClient id headerBytes payload : Effect ω)) =
      ids.map fun id => (id, headerBytes, payload) := by
  simp [Effect.clientSends, List.filterMap_map]

theorem peerSends_recipients (ids : List String) (headerBytes payload : Bytes) :
    Effect.peerSends
      (ids.map fun id => (.sendToClient id headerBytes payload : Effect ω)) = [] := by
  simp [Effect.peerSends, List.filterMap_map]

theorem clientSends_floodPeers (header : MessageHeader) (payload : Bytes) :
    Effect.clientSends (b.floodPeers header payload) = [] := by
  simp [Effect.clientSends, floodPeers, List.filterMap_map]

theorem peerSends_floodPeers (header : MessageHeader) (payload : Bytes) :
    Effect.peerSends (b.floodPeers header payload) =
      b.peers.entries.map fun e => (e.2, ⟨header, payload⟩) := by
  simp [Effect.peerSends, floodPeers, List.filterMap_map]

theorem clientSends_of_routes {fresh : Uuid} {now : Time} {env : Envelope} {senderId : String}
    {isFromPeer : Bool} (hr : b.Routes env.key senderId isFromPeer) :
    Effect.clientSends (b.processMessage pb fresh now env senderId isFromPeer).2 =
      if (b.stamp fresh env.header).messageUuid ∈ b.window.seen then []
      else ((b.seated now senderId isFromPeer).recipients env.header.topic senderId isFromPeer).map
        fun id => (id, Wire.encodeHeader pb (b.stamp fresh env.header), env.payload) := by
  rw [processMessage_of_routes hr, route_snd, seated_window, stamp_topic]
  by_cases hs : (b.stamp fresh env.header).messageUuid ∈ b.window.seen
  · simp only [if_pos hs]
    rfl
  · simp only [if_neg hs]
    change Effect.clientSends (_ ++ _) = _
    rw [Effect.clientSends_append, clientSends_recipients, clientSends_floodPeers, List.append_nil]

theorem peerSends_of_routes {fresh : Uuid} {now : Time} {env : Envelope} {senderId : String}
    {isFromPeer : Bool} (hr : b.Routes env.key senderId isFromPeer) :
    Effect.peerSends (b.processMessage pb fresh now env senderId isFromPeer).2 =
      if (b.stamp fresh env.header).messageUuid ∈ b.window.seen then []
      else b.peers.entries.map fun e => (e.2, ⟨b.stamp fresh env.header, env.payload⟩) := by
  rw [processMessage_of_routes hr, route_snd, seated_window, stamp_topic]
  by_cases hs : (b.stamp fresh env.header).messageUuid ∈ b.window.seen
  · simp only [if_pos hs]
    rfl
  · simp only [if_neg hs]
    change Effect.peerSends (_ ++ _) = _
    rw [Effect.peerSends_append, peerSends_recipients, peerSends_floodPeers, List.nil_append,
      seated_peers]

/-- The exact recipients of one routing step, and what they are sent. -/
theorem routing_step_recipients (h : Reachable pb b) (fresh : Uuid) (now : Time) (env : Envelope)
    (senderId : String) (isFromPeer : Bool) (hr : b.Routes env.key senderId isFromPeer) :
    let header := b.stamp fresh env.header
    let effects := (b.processMessage pb fresh now env senderId isFromPeer).2
    (header.messageUuid ∈ b.window.seen →
      Effect.clientSends effects = [] ∧ Effect.peerSends effects = []) ∧
    (header.messageUuid ∉ b.window.seen →
      ((Effect.clientSends effects).map Prod.fst).Nodup ∧
      (∀ c, c ∈ (Effect.clientSends effects).map Prod.fst ↔
        c ∈ b.clients ∧ (b.Subscribed c header.topic ∨ b.Subscribed c "") ∧
          ¬ (isFromPeer = false ∧ c = senderId)) ∧
      (∀ x ∈ Effect.clientSends effects, x.2 = (Wire.encodeHeader pb header, env.payload)) ∧
      Effect.peerSends effects = b.peers.entries.map fun e => (e.2, ⟨header, env.payload⟩)) ∧
    (env.header.messageUuid ≠ "" → header = env.header) ∧
    header = { env.header with
      messageUuid := header.messageUuid, originBrokerId := header.originBrokerId } := by
  intro header effects
  have hw := h.wellFormed.seated now senderId isFromPeer
  have hc : Effect.clientSends effects = _ := clientSends_of_routes hr
  have hp : Effect.peerSends effects = _ := peerSends_of_routes hr
  refine ⟨?_, ?_, stamp_of_ne, ?_⟩
  · intro hs
    rw [hc, hp, if_pos hs, if_pos hs]
    exact ⟨rfl, rfl⟩
  · intro hs
    rw [if_neg hs] at hc hp
    have hids : (Effect.clientSends effects).map Prod.fst =
        (b.seated now senderId isFromPeer).recipients env.header.topic senderId isFromPeer := by
      rw [hc, List.map_map]
      simp [Function.comp_def]
    rw [hids]
    refine ⟨recipients_nodup hw _ _ _, fun c => ?_, ?_, hp⟩
    · rw [mem_recipients hw, mem_seated_clients hr]
      simp [Subscribed, header]
    · intro x hx
      rw [hc, List.mem_map] at hx
      obtain ⟨id, -, rfl⟩ := hx
      rfl
  · simp only [header, stamp]
    split_ifs <;> rfl

/-- The second client of `twoClients` publishes, and only the subscriber is sent the message. -/
def newsEnvelope : Envelope :=
  { header := { handlerKey := "news", senderId := "client-b", topic := "news" }, payload := [1, 2] }

theorem routing_step_recipients_news :
    twoClients.Routes newsEnvelope.key "client-b" false ∧
    "client-a" ∈ (Effect.clientSends (twoClients.processMessage BrokerProto.proto3
      ⟨"00000000-0000-4000-8000-000000000004", rfl⟩ 0 newsEnvelope "client-b"
        false).2).map Prod.fst :=
  have hr : twoClients.Routes newsEnvelope.key "client-b" false :=
    Or.inr ⟨rfl, by decide, by decide⟩
  have h := routing_step_recipients twoClients_reachable
    ⟨"00000000-0000-4000-8000-000000000004", rfl⟩ 0 newsEnvelope "client-b" false hr
  ⟨hr, ((h.2.1 (by decide)).2.1 "client-a").mpr
    ⟨by decide, Or.inl (by unfold Subscribed; decide), by decide⟩⟩

end Broker

end ZmqPubSub
