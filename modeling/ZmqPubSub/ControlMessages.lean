import ZmqPubSub.BrokerClients
import ZmqPubSub.ConnectionManager

/-!
The handler key tells control messages from data, and it is the application's topic. Which control
messages the broker keeps from being routed, and which application messages it takes for control.
-/

namespace ZmqPubSub

open Containers

theorem Wire.encodeHeader_injective (pb : Protobuf) :
    Function.Injective (Wire.encodeHeader pb) := by
  intro h h' he
  have hd := congrArg (Wire.decodeHeader pb) he
  simpa using hd

namespace Broker

variable {ω : Type*} {pb : Protobuf} {b : Broker ω}

theorem clientSends_of_not_routes {fresh : Uuid} {now : Time} {env : Envelope} {senderId : String}
    {isFromPeer : Bool} (h : ¬ b.Routes env.key senderId isFromPeer) :
    let effects := (b.processMessage pb fresh now env senderId isFromPeer).2
    Effect.peerSends effects = [] ∧
      ∀ x ∈ Effect.clientSends effects,
        x.2.1 ≠ Wire.encodeHeader pb (b.stamp fresh env.header) := by
  intro effects
  obtain ⟨-, -, answer, he, ha⟩ := @processMessage_of_not_routes ω pb b fresh now env _ _ h
  have heff : effects = _ := he
  have hsend : ∀ e ∈ effects, (∃ h p, e = .inspect h p) ∨ ∃ header : MessageHeader,
      header.messageUuid = "" ∧ e = .sendToClient senderId (Wire.encodeHeader pb header) [] := by
    intro e hmem
    rw [heff, List.mem_cons] at hmem
    obtain rfl | hmem := hmem
    · exact .inl ⟨_, _, rfl⟩
    · obtain ⟨header, rfl | rfl, rfl⟩ := ha e hmem
      · exact .inr ⟨resetMsg, rfl, rfl⟩
      · exact .inr ⟨ackMsg, rfl, rfl⟩
  constructor
  · rw [Effect.peerSends, List.filterMap_eq_nil_iff]
    intro e hmem
    obtain ⟨_, _, rfl⟩ | ⟨_, -, rfl⟩ := hsend e hmem
    · rfl
    · rfl
  · rintro ⟨id, headerBytes, payload⟩ hx heq
    obtain ⟨_, _, hi⟩ | ⟨header, hu, hi⟩ := hsend _ (Effect.mem_clientSends.mp hx)
    · cases hi
    · cases hi
      have hstamp := Wire.encodeHeader_injective pb heq
      exact b.stamp_messageUuid_ne fresh env.header (hstamp ▸ hu)

theorem mem_clientSends_iff (h : b.WellFormed) (fresh : Uuid) (now : Time) (env : Envelope)
    (senderId : String) (isFromPeer : Bool) (c : String) (payload : Bytes) :
    (c, Wire.encodeHeader pb (b.stamp fresh env.header), payload) ∈
        Effect.clientSends (b.processMessage pb fresh now env senderId isFromPeer).2 ↔
      b.Routes env.key senderId isFromPeer ∧
      (b.stamp fresh env.header).messageUuid ∉ b.window.seen ∧
      (b.Subscribed c env.header.topic ∨ b.Subscribed c "") ∧
      ¬ (isFromPeer = false ∧ c = senderId) ∧ payload = env.payload := by
  by_cases hr : b.Routes env.key senderId isFromPeer
  · rw [clientSends_of_routes hr]
    by_cases hseen : (b.stamp fresh env.header).messageUuid ∈ b.window.seen
    · simp [hseen]
    · have hw := h.seated now senderId isFromPeer
      have hsub : ∀ c t, (b.seated now senderId isFromPeer).Subscribed c t ↔ b.Subscribed c t :=
        subscribed_congr (seated_subscriptions now senderId isFromPeer)
      have hknown : b.Subscribed c env.header.topic ∨ b.Subscribed c "" → c ∈ b.clients := by
        rintro (hs | hs) <;> exact h.known_of_subscribed hs
      simp only [if_neg hseen, List.mem_map, Prod.mk.injEq, true_and, mem_recipients hw,
        mem_seated_clients hr, hsub]
      constructor
      · rintro ⟨_, ⟨-, hm, hne⟩, rfl, rfl⟩
        exact ⟨hr, hseen, hm, hne, rfl⟩
      · rintro ⟨-, -, hm, hne, rfl⟩
        exact ⟨c, ⟨hknown hm, hm, hne⟩, rfl, rfl⟩
  · have hnot := @clientSends_of_not_routes ω pb b fresh now env senderId isFromPeer hr
    exact iff_of_false (fun hmem => hnot.2 _ hmem rfl) fun hc => hr hc.1

theorem peerSends_eq_nil_iff (fresh : Uuid) (now : Time) (env : Envelope) (senderId : String)
    (isFromPeer : Bool) :
    Effect.peerSends (b.processMessage pb fresh now env senderId isFromPeer).2 = [] ↔
      ¬ b.Routes env.key senderId isFromPeer ∨
      (b.stamp fresh env.header).messageUuid ∈ b.window.seen ∨ b.peers.keys = [] := by
  by_cases hr : b.Routes env.key senderId isFromPeer
  · rw [peerSends_of_routes hr]
    by_cases hseen : (b.stamp fresh env.header).messageUuid ∈ b.window.seen
    · simp [hseen]
    · simp [hr, hseen, AList.keys, List.keys]
  · exact iff_of_true (clientSends_of_not_routes hr).1 (.inl hr)

theorem not_sent_iff (h : b.WellFormed) (fresh : Uuid) (now : Time) {env : Envelope}
    {senderId : String} {isFromPeer : Bool} :
    (∀ x ∈ Effect.clientSends (b.processMessage pb fresh now env senderId isFromPeer).2,
      x.2.1 ≠ Wire.encodeHeader pb (b.stamp fresh env.header)) ↔
    ¬ b.Routes env.key senderId isFromPeer ∨
      (b.stamp fresh env.header).messageUuid ∈ b.window.seen ∨
      ∀ c, b.Subscribed c env.header.topic ∨ b.Subscribed c "" →
        isFromPeer = false ∧ c = senderId := by
  have hmem := @mem_clientSends_iff ω pb b h fresh now env senderId isFromPeer
  constructor
  · intro hno
    by_contra! hc
    obtain ⟨hr, hseen, c, hm, hne⟩ := hc
    refine hno _ ((hmem c env.payload).mpr ⟨hr, hseen, hm, ?_, rfl⟩) rfl
    exact fun he => hne he.1 he.2
  · rintro hc ⟨c, headerBytes, payload⟩ hx rfl
    obtain ⟨hr, hseen, hm, hne, -⟩ := (hmem c payload).mp hx
    rcases hc with hc | hc | hc
    · exact hc hr
    · exact hseen hc
    · exact hne (hc c hm)

theorem not_routes_iff {key senderId : String} {isFromPeer : Bool}
    (hk : Keys.isControlMessage key = true) : ¬ b.Routes key senderId isFromPeer ↔
      (isFromPeer = true ∧
        (key = Keys.reset ∨ key = Keys.heartbeatAck ∨ key = Keys.heartbeat)) ∨
      (isFromPeer = false ∧
        (senderId ∈ b.clients → key ≠ Keys.reset ∧ key ≠ Keys.heartbeatAck)) := by
  cases isFromPeer with
  | true =>
    simp only [Routes, ignoredFromPeer, true_and, Bool.true_eq_false, false_and, or_false,
      Bool.not_eq_false, Bool.or_eq_true, beq_iff_eq, or_assoc]
  | false =>
    have hconsumed : consumedLocally key = false ↔ key = Keys.reset ∨ key = Keys.heartbeatAck := by
      constructor
      · intro hc
        simp only [Keys.isControlMessage, consumedLocally, Bool.or_eq_true, beq_iff_eq,
          Bool.or_eq_false_iff, beq_eq_false_iff_ne] at hk hc
        simpa [hc, or_comm] using hk
      · rintro (rfl | rfl) <;> decide
    simp [Routes, hconsumed, not_or]

/-- A control message is kept from the subscribers and from the peers exactly in these cases: it
comes from a peer and is one of the three that the broker ignores then; it comes from a local client
that the broker does not know or is not one of the two that only the broker sends; its uuid has been
seen; or there is no peer and nobody else to send it to. -/
theorem control_not_routed_iff (h : Reachable pb b) (fresh : Uuid) (now : Time) {env : Envelope}
    (senderId : String) (isFromPeer : Bool) (hk : Keys.isControlMessage env.key = true) :
    let effects := (b.processMessage pb fresh now env senderId isFromPeer).2
    (Effect.peerSends effects = [] ∧ ∀ x ∈ Effect.clientSends effects,
        x.2.1 ≠ Wire.encodeHeader pb (b.stamp fresh env.header)) ↔
      (isFromPeer = true ∧
        (env.key = Keys.reset ∨ env.key = Keys.heartbeatAck ∨ env.key = Keys.heartbeat)) ∨
      (isFromPeer = false ∧
        (senderId ∈ b.clients → env.key ≠ Keys.reset ∧ env.key ≠ Keys.heartbeatAck)) ∨
      (b.stamp fresh env.header).messageUuid ∈ b.window.seen ∨
      (b.peers.keys = [] ∧ ∀ c, b.Subscribed c env.header.topic ∨ b.Subscribed c "" →
        isFromPeer = false ∧ c = senderId) := by
  intro effects
  rw [show effects = _ from rfl, peerSends_eq_nil_iff, not_sent_iff h.wellFormed,
    ← or_assoc (a := isFromPeer = true ∧ _), ← not_routes_iff (b := b) hk]
  tauto

def controlUuid : Uuid := ⟨"00000000-0000-4000-8000-000000000006", by decide⟩

theorem control_not_routed_iff_subscribe :
    Effect.peerSends (twoClients.processMessage BrokerProto.proto3 controlUuid 0
      (createControlEnvelope Keys.subscribe "client-b" "news") "client-b" false).2 = [] :=
  ((control_not_routed_iff twoClients_reachable controlUuid 0 "client-b" false (by decide)).mpr
    (.inr (.inl ⟨rfl, fun _ => by decide⟩))).1

/-- A RESET that names a topic, as no broker sends it. -/
def resetEnvelope : Envelope :=
  { header := { handlerKey := Keys.reset, senderId := "client-b", topic := "news" }
    payload := [1, 2] }

/-- A known client's RESET, and a SUBSCRIBE from a peer, are delivered to the subscriber of the
topic they name. -/
theorem control_delivered :
    Reachable BrokerProto.proto3 twoClients ∧
    Keys.isControlMessage Keys.reset = true ∧ Keys.isControlMessage Keys.subscribe = true ∧
    ("client-a", Wire.encodeHeader BrokerProto.proto3
        (twoClients.stamp controlUuid resetEnvelope.header), resetEnvelope.payload) ∈
      Effect.clientSends (twoClients.processMessage BrokerProto.proto3 controlUuid 0 resetEnvelope
        "client-b" false).2 ∧
    ("client-a", Wire.encodeHeader BrokerProto.proto3 (twoClients.stamp controlUuid
        (createControlEnvelope Keys.subscribe "client-c" "news").header), []) ∈
      Effect.clientSends (twoClients.processMessage BrokerProto.proto3 controlUuid 0
        (createControlEnvelope Keys.subscribe "client-c" "news") "PEER" true).2 := by
  have hlocal : twoClients.Routes resetEnvelope.key "client-b" false :=
    .inr ⟨rfl, by decide, by decide⟩
  have hpeer : twoClients.Routes (createControlEnvelope Keys.subscribe "client-c" "news").key "PEER"
      true := .inl ⟨rfl, by decide⟩
  refine ⟨twoClients_reachable, by decide, by decide, ?_, ?_⟩
  · rw [clientSends_of_routes hlocal, if_neg (by decide)]
    exact List.mem_map.mpr ⟨"client-a", by decide, rfl⟩
  · rw [clientSends_of_routes hpeer, if_neg (by decide)]
    exact List.mem_map.mpr ⟨"client-a", by decide, rfl⟩

end Broker

/-- The API calls that send application data. -/
inductive ApiCall
  /-- `sendMessage`, `sendData` or `sendDataRaw`. -/
  | send (key : String) (data : Bytes)
  /-- The request of `sendRequest`. -/
  | request (requestTopic : String) (uuid : Uuid) (payload : Bytes)
  /-- `replyToSender` in a callback for `inbound`. -/
  | reply (inbound : Envelope) (payload : Bytes)

namespace ApiCall

variable {κ : Type*} (m : ConnectionManager κ)

def topic : ApiCall → String
  | .send key _ => key
  | .request requestTopic _ _ => requestTopic
  | .reply inbound _ => inbound.header.replyTopic

def perform : ApiCall → ConnectionManager κ
  | .send key data => m.sendDataInternal key data
  | .request requestTopic uuid payload =>
    m.sendRawEnvelope (m.requestEnvelope requestTopic (requestTopic ++ uuid.val) payload)
  | .reply inbound payload => (m.sendReplyEnvelope inbound.header.replyTopic payload).2

def envelope : ApiCall → Option Envelope
  | .send key data => some (m.dataEnvelope key data)
  | .request requestTopic uuid payload =>
    some (m.requestEnvelope requestTopic (requestTopic ++ uuid.val) payload)
  | .reply inbound payload =>
    if inbound.header.replyTopic = "" then none
    else some (m.dataEnvelope inbound.header.replyTopic payload)

variable {m} {c : ApiCall} {env : Envelope}

theorem perform_eq : c.perform m = (c.envelope m).elim m m.sendRawEnvelope := by
  cases c with
  | send | request => rfl
  | reply inbound payload =>
    simp only [perform, envelope, ConnectionManager.sendReplyEnvelope]
    split_ifs <;> rfl

theorem envelope_header (h : c.envelope m = some env) :
    env.key = c.topic ∧ env.header.topic = c.topic ∧ env.header.messageUuid = "" := by
  cases c with
  | send | request =>
    cases h
    exact ⟨rfl, rfl, rfl⟩
  | reply inbound payload =>
    simp only [envelope] at h
    split_ifs at h
    cases h
    exact ⟨rfl, rfl, rfl⟩

end ApiCall

namespace Broker

variable {ω κ : Type*} {pb : Protobuf} {b : Broker ω} {m : ConnectionManager κ}

/-- The keys that the broker handles itself when they come from a client it knows. -/
def handledKeys : List String :=
  [Keys.connect, Keys.disconnect, Keys.heartbeat, Keys.subscribe, Keys.unsubscribe]

theorem routes_local_iff {key s : String} (hs : s ∈ b.clients) :
    b.Routes key s false ↔ key ∉ handledKeys := by
  simp only [Routes, Bool.false_eq_true, false_and, false_or, true_and, hs, consumedLocally,
    handledKeys, Bool.or_eq_false_iff, beq_eq_false_iff_ne, List.mem_cons, List.not_mem_nil,
    or_false, not_or]
  tauto

theorem subscriptions_same_iff (h : b.WellFormed) (fresh : Uuid) (now : Time) {env : Envelope}
    {s : String} (hs : s ∈ b.clients) (hd : env.key ≠ Keys.disconnect) :
    (b.processFromRouter pb fresh now env s).1.subscriptions.Same b.subscriptions ↔
      (env.key = Keys.subscribe → b.Subscribed s env.header.topic) ∧
      (env.key = Keys.unsubscribe → ¬ b.Subscribed s env.header.topic) := by
  obtain ⟨b₀, hr, hc, hsub, -⟩ := @processFromRouter_eq ω pb b fresh now env s
  have hfst : (b.processFromRouter pb fresh now env s).1 =
      (b₀.processLocal pb now (b₀.stamp fresh env.header) env.payload s).1 := by
    rw [hr]
    rfl
  have hcases := @processLocal_cases ω pb b₀ now (b₀.stamp fresh env.header) env.payload s
  rw [stamp_handlerKey, stamp_topic, hc, hsub] at hcases
  obtain ⟨S, hrep, -⟩ := h
  rw [hfst, subscribed_of_represents hrep]
  have hne : Keys.subscribe ≠ Keys.unsubscribe := by decide
  rcases hcases with ⟨hdis, -⟩ | ⟨-, -, ⟨-, hkey, he⟩ | ⟨-, hkey, he⟩ | ⟨hkey, he⟩⟩
  · exact absurd hdis hd
  · rw [he, SubscriptionRegistry.subscribe_same_iff hrep, Envelope.key, hkey]
    simp [hne]
  · rw [he, SubscriptionRegistry.unsubscribe_same_iff hrep, Envelope.key, hkey]
    simp [hne.symm]
  · obtain ⟨hnsub, hnunsub⟩ := hkey hs
    rw [he]
    exact iff_of_true (.refl _) ⟨fun hk => absurd hk hnsub, fun hk => absurd hk hnunsub⟩

theorem clients_same_iff (fresh : Uuid) (now : Time) {env : Envelope} {s : String}
    (hs : s ∈ b.clients) :
    (∀ x, x ∈ (b.processFromRouter pb fresh now env s).1.clients ↔ x ∈ b.clients) ↔
      env.key ≠ Keys.disconnect := by
  have hmem := @mem_clients_processFromRouter ω pb b fresh now env s
  constructor
  · intro hall hdis
    have hself := (hall s).mpr hs
    rw [hmem, if_pos hdis] at hself
    exact hself.2 rfl
  · intro hd x
    rw [hmem, if_neg hd]
    exact or_iff_right_of_imp fun hx => hx ▸ hs

/-- A client's message goes to all other subscribers of its topic exactly if it is routed, or if
there is no such subscriber. -/
theorem reaches_subscribers_iff (h : b.WellFormed) (fresh : Uuid) (now : Time) {env : Envelope}
    {s : String} (hs : s ∈ b.clients) :
    (∀ x, (x, Wire.encodeHeader pb (b.stamp fresh env.header), env.payload) ∈
        Effect.clientSends (b.processFromRouter pb fresh now env s).2 ↔
      (b.Subscribed x env.header.topic ∨ b.Subscribed x "") ∧ x ≠ s) ↔
    (env.key ∉ handledKeys ∧ (b.stamp fresh env.header).messageUuid ∉ b.window.seen) ∨
      ∀ x, b.Subscribed x env.header.topic ∨ b.Subscribed x "" → x = s := by
  obtain ⟨b₀, he, hc, hsub, hw, -, hid⟩ := @processFromRouter_eq ω pb b fresh now env s
  have hwf : b₀.WellFormed := h.mono hsub fun _ hx => hc ▸ hx
  have hmem := fun x => @mem_clientSends_iff ω pb b₀ hwf fresh now env s false x env.payload
  simp only [stamp_congr hid, routes_local_iff (show s ∈ b₀.clients from hc ▸ hs), hw,
    subscribed_congr hsub, true_and, and_true] at hmem
  rw [he]
  simp only [hmem]
  constructor
  · intro hall
    by_contra! hno
    obtain ⟨hhandled, x, hx, hne⟩ := hno
    obtain ⟨hnot, hseen, -⟩ := (hall x).mpr ⟨hx, hne⟩
    exact hseen (hhandled hnot)
  · rintro (⟨hnot, hseen⟩ | hnone) x
    · exact ⟨fun hx => hx.2.2, fun hx => ⟨hnot, hseen, hx⟩⟩
    · exact iff_of_false (fun hx => hx.2.2.2 (hnone x hx.2.2.1)) fun hx => hx.2 (hnone x hx.1)

theorem floods_nobody_iff (fresh : Uuid) (now : Time) {env : Envelope} {s : String}
    (hs : s ∈ b.clients) :
    Effect.peerSends (b.processFromRouter pb fresh now env s).2 = [] ↔
      env.key ∈ handledKeys ∨ (b.stamp fresh env.header).messageUuid ∈ b.window.seen ∨
        b.peers.keys = [] := by
  obtain ⟨b₀, he, hc, -, hw, hp, hid⟩ := @processFromRouter_eq ω pb b fresh now env s
  rw [he, peerSends_eq_nil_iff, routes_local_iff (hc ▸ hs), not_not, stamp_congr hid, hw, hp]

/-- What becomes of application data at a broker that knows the client. It changes no client entry
and no subscription and goes to the subscribers of its topic, exactly if its topic is none of the
five keys that the broker handles itself and its uuid is new; or else, if nobody but the sender
subscribes to the topic, it is not taken for a DISCONNECT or for a change of the subscriptions. It
is written to the peers exactly in the first case. -/
theorem data_not_control_iff (h : Reachable pb b) {c : ApiCall} {env : Envelope}
    (henv : c.envelope m = some env) (hm : m.clientId ∈ b.clients) (fresh : Uuid) (now : Time) :
    let r := b.processFromRouter pb fresh now env m.clientId
    (((∀ x, x ∈ r.1.clients ↔ x ∈ b.clients) ∧ r.1.subscriptions.Same b.subscriptions ∧
        ∀ x, (x, Wire.encodeHeader pb (b.stamp fresh env.header), env.payload) ∈
            Effect.clientSends r.2 ↔
          (b.Subscribed x c.topic ∨ b.Subscribed x "") ∧ x ≠ m.clientId) ↔
      c.topic ≠ Keys.disconnect ∧
      (c.topic = Keys.subscribe → b.Subscribed m.clientId c.topic) ∧
      (c.topic = Keys.unsubscribe → ¬ b.Subscribed m.clientId c.topic) ∧
      ((c.topic ∉ handledKeys ∧ fresh.val ∉ b.window.seen) ∨
        ∀ x, b.Subscribed x c.topic ∨ b.Subscribed x "" → x = m.clientId)) ∧
    (Effect.peerSends r.2 = [] ↔
      c.topic ∈ handledKeys ∨ fresh.val ∈ b.window.seen ∨ b.peers.keys = []) := by
  intro r
  obtain ⟨hkey, htopic, huuid⟩ := ApiCall.envelope_header henv
  have hfresh : (b.stamp fresh env.header).messageUuid = fresh.val := by
    simp [stamp, huuid]
  have hclients := @clients_same_iff ω pb b fresh now env m.clientId hm
  have hsubs := @subscriptions_same_iff ω pb b h.wellFormed fresh now env m.clientId hm
  have hsends := @reaches_subscribers_iff ω pb b h.wellFormed fresh now env m.clientId hm
  have hpeers := @floods_nobody_iff ω pb b fresh now env m.clientId hm
  rw [hkey] at hclients
  rw [hkey, htopic] at hsubs
  rw [hkey, htopic, hfresh] at hsends
  rw [hkey, hfresh] at hpeers
  refine ⟨?_, hpeers⟩
  rw [hclients, hsends]
  refine and_congr_right fun hd => ?_
  rw [hsubs hd, and_assoc]

def responder : ConnectionManager Unit := { clientId := "client-b" }

theorem data_not_control_iff_news :
    ∃ env, (ApiCall.send "news" [1]).envelope responder = some env ∧
      ("client-a", Wire.encodeHeader BrokerProto.proto3 (twoClients.stamp controlUuid env.header),
        env.payload) ∈ Effect.clientSends (twoClients.processFromRouter BrokerProto.proto3
          controlUuid 0 env "client-b").2 := by
  have h := (data_not_control_iff (m := responder) (c := .send "news" [1]) twoClients_reachable rfl
    (by decide) controlUuid 0).1.mpr
    ⟨by decide, by decide, by decide, .inl ⟨by decide, by decide⟩⟩
  exact ⟨_, rfl, (h.2.2 "client-a").mpr ⟨.inl (by decide), by decide⟩⟩

/-- A request that asks for its reply under DISCONNECT. -/
def hostileRequest : Envelope :=
  { header := { handlerKey := "time", senderId := "client-a", topic := "time",
                replyTopic := Keys.disconnect }
    payload := [] }

theorem reply_disconnects_responder : ∃ env,
    (ApiCall.reply hostileRequest [1]).envelope responder = some env ∧
    (ApiCall.reply hostileRequest [1]).perform responder = responder.sendRawEnvelope env ∧
    Reachable BrokerProto.proto3 twoClients ∧ responder.clientId ∈ twoClients.clients ∧
    responder.clientId ∉ (twoClients.processFromRouter BrokerProto.proto3 controlUuid 0 env
      responder.clientId).1.clients :=
  ⟨_, rfl, rfl, twoClients_reachable, by decide, by decide⟩

end Broker

end ZmqPubSub
