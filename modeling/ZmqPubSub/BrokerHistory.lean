import Mathlib.Data.List.DropRight
import ZmqPubSub.BrokerClients

/-!
Each step of the broker thread makes one list of calls, an activation. Every activation is quiet,
drops a duplicate or routes a new message; the history of a broker is the list of its activations.
-/

namespace ZmqPubSub

open Containers HistoryWindow SubscriptionRegistry

namespace Effect

variable {ω : Type*} (pb : Protobuf)

/-- The calls of `processMessage` for a message that it routes. -/
def routing (sender : Option String) (env : Envelope) (ids : List String) (peers : List ω) :
    List (Effect ω) :=
  .inspect (Wire.encodeHeader pb env.header) env.payload :: .dedup sender env.uuid false ::
    (ids.map (fun id => .sendToClient id (Wire.encodeHeader pb env.header) env.payload) ++
      peers.map fun peer => .writeMessage peer env)

/-- The message that an activation passed beyond `isDuplicate`. -/
def accepted : List (Effect ω) → Option Envelope
  | .inspect headerBytes payload :: .dedup _ _ false :: _ =>
    (Wire.decodeHeader pb headerBytes).map fun header => ⟨header, payload⟩
  | _ => none

def carries (uuid : String) (headerBytes : Bytes) : Bool :=
  (Wire.decodeHeader pb headerBytes).any fun header => header.messageUuid == uuid

def handed (clientId uuid : String) (effects : List (Effect ω)) : List (String × Bytes × Bytes) :=
  (clientSends effects).filter fun x => x.1 == clientId && carries pb uuid x.2.1

/-- The messages that the activation sends to the client, as they are read at the other end. -/
def delivered (clientId : String) (effects : List (Effect ω)) : List Envelope :=
  ((clientSends effects).filter fun x => x.1 == clientId).filterMap fun x =>
    Wire.recv pb (Wire.sendFrames x.2.1 x.2.2)

def flooded (uuid : String) (effects : List (Effect ω)) : List (ω × Envelope) :=
  (peerSends effects).filter fun x => x.2.uuid == uuid

variable {pb} {sender : Option String} {env : Envelope} {ids : List String} {peers : List ω}

@[simp] theorem carries_encodeHeader (uuid : String) (header : MessageHeader) :
    carries pb uuid (Wire.encodeHeader pb header) = (header.messageUuid == uuid) := by
  simp [carries]

theorem clientSends_routing : clientSends (routing pb sender env ids peers) =
    ids.map fun id => (id, Wire.encodeHeader pb env.header, env.payload) := by
  simp [routing, clientSends, List.filterMap_map]

theorem peerSends_routing :
    peerSends (routing pb sender env ids peers) = peers.map fun peer => (peer, env) := by
  simp [routing, peerSends, List.filterMap_map]

theorem dedupCalls_routing :
    dedupCalls (routing pb sender env ids peers) = [(env.uuid, false)] := by
  simp [routing, dedupCalls, List.filterMap_map]

theorem accepted_routing : accepted pb (routing pb sender env ids peers) = some env := by
  simp [routing, accepted]

theorem dedup_mem_routing {sender' : Option String} {uuid : String} {verdict : Bool} :
    .dedup sender' uuid verdict ∈ routing pb sender env ids peers ↔
      sender' = sender ∧ uuid = env.uuid ∧ verdict = false := by
  simp [routing]

theorem handed_routing (hn : ids.Nodup) (clientId uuid : String) :
    handed pb clientId uuid (routing pb sender env ids peers) =
      if clientId ∈ ids ∧ env.uuid = uuid then
        [(clientId, Wire.encodeHeader pb env.header, env.payload)]
      else [] := by
  unfold handed
  rw [clientSends_routing, List.filter_map]
  have hf : ids.filter
      ((fun x : String × Bytes × Bytes => x.1 == clientId && carries pb uuid x.2.1) ∘
      fun id => (id, Wire.encodeHeader pb env.header, env.payload)) =
      if env.uuid = uuid then ids.filter (· == clientId) else [] := by
    by_cases hu : env.uuid = uuid
    · rw [if_pos hu]
      refine List.filter_congr fun id _ => ?_
      have hu' : env.header.messageUuid = uuid := hu
      simp [hu']
    · rw [if_neg hu, List.filter_eq_nil_iff]
      intro id _
      have hu' : env.header.messageUuid ≠ uuid := hu
      simp [hu']
  rw [hf]
  by_cases hu : env.uuid = uuid
  · rw [if_pos hu, List.filter_beq, List.Nodup.count hn]
    by_cases hc : clientId ∈ ids
    · simp [hc, hu]
    · simp [hc]
  · simp [hu]

theorem delivered_routing (hn : ids.Nodup) (clientId : String) :
    delivered pb clientId (routing pb sender env ids peers) =
      if clientId ∈ ids then [env] else [] := by
  have hf : ids.filter ((fun x : String × Bytes × Bytes => x.1 == clientId) ∘
      fun id => (id, Wire.encodeHeader pb env.header, env.payload)) =
      ids.filter (· == clientId) := rfl
  unfold delivered
  rw [clientSends_routing, List.filter_map, hf, List.filter_beq, List.Nodup.count hn]
  split_ifs with hc
  · simp
  · simp

theorem flooded_routing (uuid : String) : flooded uuid (routing pb sender env ids peers) =
    if env.uuid = uuid then peers.map fun peer => (peer, env) else [] := by
  unfold flooded
  rw [peerSends_routing]
  by_cases hu : env.uuid = uuid
  · simp [hu, List.filter_eq_self]
  · simp [hu, List.filter_eq_nil_iff]

end Effect

namespace Broker

variable {ω : Type*} {pb : Protobuf} {b : Broker ω}

/-- The sender that the echo rule looks at. -/
def echoSender (senderId : String) (isFromPeer : Bool) : Option String :=
  if isFromPeer then none else some senderId

/-- The message with its identity. -/
def stamped (b : Broker ω) (fresh : Uuid) (env : Envelope) : Envelope :=
  ⟨b.stamp fresh env.header, env.payload⟩

theorem stamped_of_ne {fresh : Uuid} {env : Envelope} (h : env.uuid ≠ "") :
    b.stamped fresh env = env := by
  rw [stamped, stamp_of_ne h]

theorem stamped_uuid_ne (fresh : Uuid) (env : Envelope) : (b.stamped fresh env).uuid ≠ "" :=
  stamp_messageUuid_ne fresh env.header

theorem stamped_key (fresh : Uuid) (env : Envelope) : (b.stamped fresh env).key = env.key :=
  stamp_handlerKey fresh env.header

section

variable {fresh : Uuid} {now : Time} {env : Envelope} {senderId : String} {isFromPeer : Bool}

theorem processMessage_new (h : b.WellFormed) (hr : b.Routes env.key senderId isFromPeer)
    (hs : (b.stamped fresh env).uuid ∉ b.window.seen) :
    ∃ ids : List String, (b.processMessage pb fresh now env senderId isFromPeer).2 =
        Effect.routing pb (echoSender senderId isFromPeer) (b.stamped fresh env) ids
          (b.peers.entries.map fun e => e.2) ∧
      ids.Nodup ∧
      ∀ c, c ∈ ids ↔ c ∈ b.clients ∧ (b.Subscribed c env.header.topic ∨ b.Subscribed c "") ∧
        echoSender senderId isFromPeer ≠ some c := by
  have hw := h.seated now senderId isFromPeer
  refine ⟨(b.seated now senderId isFromPeer).recipients env.header.topic senderId isFromPeer,
    ?_, recipients_nodup hw _ _ _, fun c => ?_⟩
  · have hs' : (b.stamp fresh env.header).messageUuid ∉ b.window.seen := hs
    rw [processMessage_of_routes hr, route_snd, seated_window, if_neg hs', stamp_topic]
    simp [Effect.routing, stamped, echoSender, floodPeers, hs', Envelope.uuid, List.map_map,
      Function.comp_def]
  · rw [mem_recipients hw, mem_seated_clients hr]
    have he : (¬ (isFromPeer = false ∧ c = senderId)) ↔
        echoSender senderId isFromPeer ≠ some c := by
      cases isFromPeer <;> simp [echoSender, eq_comm]
    rw [he]
    simp [Subscribed]

theorem processMessage_duplicate (hr : b.Routes env.key senderId isFromPeer)
    (hs : (b.stamped fresh env).uuid ∈ b.window.seen) :
    (b.processMessage pb fresh now env senderId isFromPeer).2 =
      [.inspect (Wire.encodeHeader pb (b.stamped fresh env).header) env.payload,
        .dedup (echoSender senderId isFromPeer) (b.stamped fresh env).uuid true] := by
  have hs' : (b.stamp fresh env.header).messageUuid ∈ b.window.seen := hs
  rw [processMessage_of_routes hr, route_snd, seated_window, if_pos hs']
  simp [stamped, echoSender, hs', Envelope.uuid]

theorem processMessage_window (hr : b.Routes env.key senderId isFromPeer) :
    (b.processMessage pb fresh now env senderId isFromPeer).1.window =
      (check maxHistorySize b.window (b.stamped fresh env).uuid).2 := by
  rw [processMessage_of_routes hr, route_fst, seated_window]
  rfl

/-- A message that is not routed is at most answered, with a message that carries no uuid. -/
theorem processMessage_quiet (hr : ¬ b.Routes env.key senderId isFromPeer) :
    Effect.dedupCalls (b.processMessage pb fresh now env senderId isFromPeer).2 = [] ∧
    Effect.peerSends (b.processMessage pb fresh now env senderId isFromPeer).2 = [] ∧
    Effect.accepted pb (b.processMessage pb fresh now env senderId isFromPeer).2 = none ∧
    ∀ x ∈ Effect.clientSends (b.processMessage pb fresh now env senderId isFromPeer).2,
      ∃ header : MessageHeader, (header = resetMsg ∨ header = ackMsg) ∧
        x = (senderId, Wire.encodeHeader pb header, []) := by
  obtain ⟨-, -, answer, he, ha⟩ := @processMessage_of_not_routes ω pb b fresh now env senderId _ hr
  rw [he]
  have hd : ∀ e ∈ answer, ∃ headerBytes, e = .sendToClient senderId headerBytes [] := by
    intro e hm
    obtain ⟨header, -, hx⟩ := ha e hm
    exact ⟨_, hx⟩
  refine ⟨?_, ?_, ?_, ?_⟩
  · refine List.filterMap_eq_nil_iff.mpr fun e hm => ?_
    rcases List.mem_cons.mp hm with rfl | hm
    · rfl
    · obtain ⟨headerBytes, rfl⟩ := hd e hm
      rfl
  · refine List.filterMap_eq_nil_iff.mpr fun e hm => ?_
    rcases List.mem_cons.mp hm with rfl | hm
    · rfl
    · obtain ⟨headerBytes, rfl⟩ := hd e hm
      rfl
  · cases answer with
    | nil => rfl
    | cons e rest =>
      obtain ⟨headerBytes, rfl⟩ := hd e List.mem_cons_self
      rfl
  · rintro ⟨id, headerBytes, payload⟩ hx
    rw [Effect.mem_clientSends, List.mem_cons] at hx
    rcases hx with hx | hx
    · cases hx
    · obtain ⟨header, hh, he⟩ := ha _ hx
      injection he with h1 h2 h3
      exact ⟨header, hh, by rw [h1, h2, h3]⟩

theorem answer_sends {effects : List (Effect ω)} (h : ∀ x ∈ Effect.clientSends effects,
      ∃ header : MessageHeader, (header = resetMsg ∨ header = ackMsg) ∧
        x = (senderId, Wire.encodeHeader pb header, [])) :
    ∀ x ∈ Effect.clientSends effects, ∃ env : Envelope, env.uuid = "" ∧
      consumedLocally env.key = false ∧ x.2 = (Wire.encodeHeader pb env.header, env.payload) := by
  intro x hx
  obtain ⟨header, rfl | rfl, rfl⟩ := h x hx
  · exact ⟨⟨resetMsg, []⟩, rfl, rfl, rfl⟩
  · exact ⟨⟨ackMsg, []⟩, rfl, rfl, rfl⟩

end

/-- The event brings a message to the routing stage: its echo sender and what is routed. -/
inductive Event.Brings (b : Broker ω) : Event ω → Option String → Envelope → Prop
  | fromRouter (fresh : Uuid) (now : Time) (env : Envelope) (identity : String) :
      b.Routes env.key identity false →
      Brings b (.fromRouter fresh now env identity) (some identity) (b.stamped fresh env)
  | fromPeer (fresh : Uuid) (now : Time) (env : Envelope) : b.Routes env.key "PEER" true →
      Brings b (.fromPeer fresh now env) none (b.stamped fresh env)

theorem Event.Brings.uuid_ne {e : Event ω} {sender : Option String} {env : Envelope}
    (h : e.Brings b sender env) : env.uuid ≠ "" := by
  cases h with
  | fromRouter fresh now env => exact stamped_uuid_ne fresh env
  | fromPeer fresh now env => exact stamped_uuid_ne fresh env

theorem Event.Brings.sender_eq {e : Event ω} {c : String} {env : Envelope}
    (h : e.Brings b (some c) env) : e.sender = some c := by
  cases h
  rfl

theorem Event.Brings.unique {e : Event ω} {sender sender' : Option String} {env env' : Envelope}
    (h : e.Brings b sender env) (h' : e.Brings b sender' env') : sender = sender' ∧ env = env' := by
  cases h with
  | fromRouter =>
    cases h'
    exact ⟨rfl, rfl⟩
  | fromPeer =>
    cases h'
    exact ⟨rfl, rfl⟩

/-- The message `env` is new and goes to the clients `ids` and to all peers. -/
structure Routed (pb : Protobuf) (b : Broker ω) (e : Event ω) (effects : List (Effect ω))
    (w : Window String) (sender : Option String) (env : Envelope) (ids : List String) : Prop where
  brings : e.Brings b sender env
  fresh : env.uuid ∉ b.window.seen
  window : w = (check maxHistorySize b.window env.uuid).2
  effects_eq : effects = Effect.routing pb sender env ids (b.peers.entries.map fun e => e.2)
  nodup : ids.Nodup
  recipients : ∀ c, c ∈ ids ↔ c ∈ b.clients ∧
    (b.Subscribed c env.header.topic ∨ b.Subscribed c "") ∧ sender ≠ some c

inductive Activation (pb : Protobuf) (b : Broker ω) (e : Event ω) (effects : List (Effect ω))
    (w : Window String) : Prop
  /-- Control messages, sweeps, statistics: what is sent carries no uuid. -/
  | quiet (brings : ∀ sender env, ¬ e.Brings b sender env) (window : w = b.window)
      (calls : Effect.dedupCalls effects = []) (floods : Effect.peerSends effects = [])
      (accepted : Effect.accepted pb effects = none)
      (sends : ∀ x ∈ Effect.clientSends effects, ∃ env : Envelope, env.uuid = "" ∧
        Broker.consumedLocally env.key = false ∧
          x.2 = (Wire.encodeHeader pb env.header, env.payload))
  | duplicate (sender : Option String) (env : Envelope) (brings : e.Brings b sender env)
      (old : env.uuid ∈ b.window.seen) (window : w = b.window) (effects_eq : effects =
        [.inspect (Wire.encodeHeader pb env.header) env.payload, .dedup sender env.uuid true])
  | new (sender : Option String) (env : Envelope) (ids : List String)
      (routed : Routed pb b e effects w sender env ids)

theorem Activation.quiet_of_no_message {e : Event ω} {effects : List (Effect ω)} {w : Window String}
    (hb : ∀ sender env, ¬ e.Brings b sender env) (hw : w = b.window) (he : effects = []) :
    Activation pb b e effects w := by
  subst he
  exact .quiet hb hw rfl rfl rfl (by simp [Effect.clientSends])

theorem fromRouter_activation (h : b.WellFormed) (fresh : Uuid) (now : Time) (env : Envelope)
    (identity : String) : Activation pb b (.fromRouter fresh now env identity)
      (b.processFromRouter pb fresh now env identity).2
      (b.processFromRouter pb fresh now env identity).1.window := by
  obtain ⟨b₀, he, hc, hs, hw, hp, hid⟩ := @processFromRouter_eq ω pb b fresh now env identity
  have hwf : b₀.WellFormed := h.mono hs fun _ hx => hc ▸ hx
  have hroutes : b₀.Routes env.key identity false ↔ b.Routes env.key identity false := by
    rw [Routes, Routes, hc]
  have hst : b₀.stamped fresh env = b.stamped fresh env := by
    rw [stamped, stamped, stamp, stamp, hid]
  rw [he]
  by_cases hr : b.Routes env.key identity false
  · have hr₀ := hroutes.mpr hr
    rw [processMessage_window hr₀, hst, hw]
    by_cases hu : (b.stamped fresh env).uuid ∈ b.window.seen
    · have hd := @processMessage_duplicate ω pb b₀ fresh now env identity false hr₀
        (by rwa [hst, hw])
      rw [hst] at hd
      exact .duplicate _ _ (.fromRouter fresh now env identity hr) hu (check_snd_of_mem hu) hd
    · obtain ⟨ids, hn, hnodup, hids⟩ := @processMessage_new ω pb b₀ fresh now env identity false
        hwf hr₀ (by rwa [hst, hw])
      rw [hst, hp] at hn
      refine .new _ _ ids ⟨.fromRouter fresh now env identity hr, hu, rfl, hn, hnodup, fun c => ?_⟩
      rw [hids, hc, subscribed_congr hs, subscribed_congr hs]
      simp [stamped, echoSender]
  · obtain ⟨hd, hp', ha, hx⟩ := @processMessage_quiet ω pb b₀ fresh now env identity false
      (mt hroutes.mp hr)
    refine .quiet ?_ ((processMessage_of_not_routes (mt hroutes.mp hr)).1.trans hw) hd hp' ha ?_
    · intro sender env' hb
      cases hb
      exact hr (by assumption)
    · exact answer_sends hx

theorem fromPeer_activation (h : b.WellFormed) (fresh : Uuid) (now : Time) (env : Envelope) :
    Activation pb b (.fromPeer fresh now env) (b.processFromPeer pb fresh now env).2
      (b.processFromPeer pb fresh now env).1.window := by
  unfold processFromPeer
  by_cases hr : b.Routes env.key "PEER" true
  · rw [processMessage_window hr]
    by_cases hu : (b.stamped fresh env).uuid ∈ b.window.seen
    · exact .duplicate _ _ (.fromPeer fresh now env hr) hu (check_snd_of_mem hu)
        (processMessage_duplicate hr hu)
    · obtain ⟨ids, hn, hnodup, hids⟩ := @processMessage_new ω pb b fresh now env "PEER" true h hr hu
      refine .new _ _ ids ⟨.fromPeer fresh now env hr, hu, rfl, hn, hnodup, fun c => ?_⟩
      rw [hids]
      simp [stamped, echoSender]
  · obtain ⟨hd, hp, ha, hx⟩ := @processMessage_quiet ω pb b fresh now env "PEER" true hr
    refine .quiet ?_ (processMessage_of_not_routes hr).1 hd hp ha (answer_sends hx)
    intro sender env' hb
    cases hb
    exact hr (by assumption)

theorem step_activation (h : b.WellFormed) (e : Event ω) :
    Activation pb b e (b.step pb e).2 (b.step pb e).1.window := by
  have none_brings : ∀ {e : Event ω}, e.sender = none →
      (∀ fresh now env, e ≠ .fromPeer fresh now env) →
      ∀ sender env, ¬ e.Brings b sender env := by
    intro e hs hp sender env hb
    cases hb with
    | fromRouter => cases hs
    | fromPeer fresh now env => exact hp fresh now env rfl
  cases e with
  | fromRouter fresh now env identity => exact fromRouter_activation h fresh now env identity
  | fromPeer fresh now env => exact fromPeer_activation h fresh now env
  | sweep now =>
    have hw : (b.sweep now).window = b.window := by rw [sweep_frame]
    exact .quiet_of_no_message (none_brings rfl (by simp)) hw rfl
  | broadcastStats now =>
    refine .quiet (none_brings rfl (by simp)) rfl ?_ ?_ ?_ ?_
    · simp [step, broadcastStats, Effect.dedupCalls, List.filterMap_map]
    · simp [step, broadcastStats, Effect.peerSends, List.filterMap_map]
    · unfold step broadcastStats
      cases (b.subscriptions.subscribersOf Keys.sysStats).getD [] <;> rfl
    · rintro ⟨id, headerBytes, payload⟩ hx
      rw [Effect.mem_clientSends] at hx
      simp only [step, broadcastStats, List.mem_cons, reduceCtorEq, List.mem_map,
        Effect.sendToClient.injEq, false_or] at hx
      obtain ⟨_, -, -, he, hp⟩ := hx
      exact ⟨⟨statsMsg, payload⟩, rfl, rfl, by rw [he]⟩
  | addPeer key peer =>
    have hw : (b.addPeer key peer).window = b.window := by rw [addPeer_frame]
    exact .quiet_of_no_message (none_brings rfl (by simp)) hw rfl
  | removePeer key => exact .quiet_of_no_message (none_brings rfl (by simp)) rfl rfl

theorem processMessage_peers (fresh : Uuid) (now : Time) (env : Envelope) (senderId : String)
    (isFromPeer : Bool) :
    (b.processMessage pb fresh now env senderId isFromPeer).1.peers = b.peers := by
  by_cases hr : b.Routes env.key senderId isFromPeer
  · rw [processMessage_of_routes hr, route_fst, seated_peers]
  · exact (processMessage_of_not_routes hr).2.1

theorem step_peers {e : Event ω} (ha : ∀ key peer, e ≠ .addPeer key peer)
    (hr : ∀ key, e ≠ .removePeer key) : (b.step pb e).1.peers = b.peers := by
  cases e with
  | fromRouter fresh now env identity => exact processMessage_peers fresh now env identity false
  | fromPeer fresh now env => exact processMessage_peers fresh now env "PEER" true
  | sweep now => rw [step, sweep_frame]
  | broadcastStats now => rfl
  | addPeer key peer => exact absurd rfl (ha key peer)
  | removePeer key => exact absurd rfl (hr key)

/-- A broker with all its activations since it was started, oldest first. -/
inductive History (pb : Protobuf) : Broker ω → List (List (Effect ω)) → Prop
  | start (b : Broker ω) : b.Initial → History pb b []
  | step {b : Broker ω} {acts : List (List (Effect ω))} (e : Event ω) : History pb b acts →
      History pb (b.step pb e).1 (acts ++ [(b.step pb e).2])

variable {acts : List (List (Effect ω))} {u : String}

theorem History.wellFormed (h : History pb b acts) : b.WellFormed := by
  induction h with
  | start b hi => exact wellFormed_initial hi
  | step e _ ih => exact ih.step e

theorem Activation.answered {e : Event ω} {effects : List (Effect ω)} {w : Window String}
    {calls : List (String × Bool)} (h : Activation pb b e effects w)
    (hc : Answered maxHistorySize calls b.window) :
    Answered maxHistorySize (calls ++ Effect.dedupCalls effects) w := by
  cases h with
  | quiet _ window hcalls =>
    rw [hcalls, List.append_nil, window]
    exact hc
  | duplicate sender env _ old window he =>
    have hs := hc.snoc env.uuid
    rw [check_fst, check_snd_of_mem old, decide_eq_true old] at hs
    rw [he, window]
    exact hs
  | new sender env ids hr =>
    have hs := hc.snoc env.uuid
    rw [check_fst, decide_eq_false hr.fresh] at hs
    rw [hr.effects_eq, Effect.dedupCalls_routing, hr.window]
    exact hs

theorem History.answered (h : History pb b acts) :
    Answered maxHistorySize (acts.flatMap Effect.dedupCalls) b.window := by
  induction h with
  | start b hi =>
    obtain ⟨id, t, rfl⟩ := hi
    exact .nil
  | step e h ih =>
    rw [List.flatMap_append, List.flatMap_singleton]
    exact (step_activation h.wellFormed e).answered ih

theorem History.activation (h : History pb b acts) {act : List (Effect ω)} (ha : act ∈ acts) :
    ∃ (b₀ : Broker ω) (e : Event ω) (w : Window String), Activation pb b₀ e act w := by
  induction h with
  | start => cases ha
  | @step b acts e h ih =>
    rcases List.mem_append.mp ha with ha | ha
    · exact ih ha
    · rw [List.mem_singleton.mp ha]
      exact ⟨b, e, _, step_activation h.wellFormed e⟩

def isDuplicates (b : Broker ω) (uuids : List String) : List (String × Bool) × Broker ω :=
  uuids.foldl (fun r uuid => (r.1 ++ [(uuid, (r.2.isDuplicate uuid).1)], (r.2.isDuplicate uuid).2))
    ([], b)

theorem answered_isDuplicates (hb : b.window = {}) (uuids : List String) :
    Answered maxHistorySize (b.isDuplicates uuids).1 (b.isDuplicates uuids).2.window := by
  induction uuids using List.reverseRecOn with
  | nil =>
    change Answered maxHistorySize [] b.window
    rw [hb]
    exact .nil
  | append_singleton uuids uuid ih =>
    rw [isDuplicates, List.foldl_concat]
    exact ih.snoc uuid

/-- From an empty window, `isDuplicate` recognises the last `maxHistorySize` uuids that it let
through and no others; the queue has no duplicates and no more than these elements, and the set is
the set of its elements. -/
theorem isDuplicate_exact (b : Broker ω) (uuids : List String) :
    let r := isDuplicates { b with window := {} } uuids
    (∀ uuid, (r.2.isDuplicate uuid).1 = true ↔ uuid ∈ (accepted r.1).rtake maxHistorySize) ∧
    r.2.window.order = (accepted r.1).rtake maxHistorySize ∧ r.2.window.order.Nodup ∧
    r.2.window.order.length ≤ maxHistorySize ∧ r.2.window.seen = r.2.window.order.toFinset := by
  intro r
  have ht : Tracks maxHistorySize r.2.window (accepted r.1) :=
    (answered_isDuplicates rfl uuids).tracks
  have horder : r.2.window.order = (accepted r.1).rtake maxHistorySize := ht.order_eq
  refine ⟨fun uuid => ?_, horder, ht.nodup, ?_, ht.seen_eq⟩
  · change (check maxHistorySize r.2.window uuid).1 = true ↔ _
    rw [check_fst, decide_eq_true_iff, ht.seen_eq, List.mem_toFinset, horder]
  · rw [ht.order_eq, List.length_drop]
    omega

/-- An activation sends nothing of a message that it does not accept, and hands the message at most
once to each client, but not to the one it came from. -/
theorem Activation.of_uuid {e : Event ω} {act : List (Effect ω)} {w : Window String}
    (h : Activation pb b e act w) (hu : u ≠ "") (c : String) :
    (Effect.handed pb c u act).length ≤ (Effect.dedupCalls act).count (u, false) ∧
    (Effect.flooded u act ≠ [] → 0 < (Effect.dedupCalls act).count (u, false)) ∧
    (.dedup (some c) u false ∈ act → Effect.handed pb c u act = []) := by
  cases h with
  | quiet _ _ hcalls hfloods _ hsends =>
    have hh : Effect.handed pb c u act = [] := by
      refine List.filter_eq_nil_iff.mpr fun x hx => ?_
      obtain ⟨env, he, -, hx⟩ := hsends x hx
      have he' : env.header.messageUuid = "" := he
      simp [hx, he', hu.symm]
    refine ⟨by simp [hh], fun hf => ?_, fun _ => hh⟩
    exact absurd (by simp [Effect.flooded, hfloods]) hf
  | duplicate sender env _ _ _ he =>
    subst he
    simp [Effect.handed, Effect.flooded, Effect.clientSends, Effect.peerSends]
  | new sender env ids hr =>
    obtain ⟨-, -, -, rfl, hn, hids⟩ := hr
    rw [Effect.handed_routing hn, Effect.flooded_routing, Effect.dedupCalls_routing,
      Effect.dedup_mem_routing]
    refine ⟨?_, ?_, ?_⟩
    · split_ifs with hc
      · simp [hc.2]
      · simp
    · intro hf
      split_ifs at hf with he
      · simp [he]
      · exact absurd rfl hf
    · rintro ⟨hs, -, -⟩
      rw [if_neg]
      exact fun hc => ((hids c).mp hc.1).2.2 hs.symm

theorem Activation.silent_or_routed {e : Event ω} {act : List (Effect ω)} {w : Window String}
    (h : Activation pb b e act w) :
    (w = b.window ∧ Effect.accepted pb act = none ∧ Effect.peerSends act = [] ∧
      ∀ sender env, e.Brings b sender env → env.uuid ∈ b.window.seen) ∨
    ∃ sender env ids, Routed pb b e act w sender env ids := by
  cases h with
  | quiet hb hw _ hp ha _ => exact Or.inl ⟨hw, ha, hp, fun sender env h => absurd h (hb sender env)⟩
  | duplicate sender env hb hold hw he =>
    subst he
    refine Or.inl ⟨hw, rfl, rfl, fun sender' env' hb' => ?_⟩
    obtain ⟨-, rfl⟩ := hb.unique hb'
    exact hold
  | new sender env ids hr => exact Or.inr ⟨sender, env, ids, hr⟩

theorem Activation.routed_of_accepted {e : Event ω} {act : List (Effect ω)} {w : Window String}
    {env : Envelope} (h : Activation pb b e act w) (ha : Effect.accepted pb act = some env) :
    ∃ sender ids, Routed pb b e act w sender env ids := by
  rcases h.silent_or_routed with ⟨-, hn, -⟩ | ⟨sender, env', ids, hr⟩
  · rw [hn] at ha
    cases ha
  · rw [hr.effects_eq, Effect.accepted_routing, Option.some.injEq] at ha
    exact ⟨sender, ids, ha ▸ hr⟩

/-- What a broker sends has a key that the local branch does not consume, if that holds of what it
is brought. -/
theorem Activation.keys {e : Event ω} {act : List (Effect ω)} {w : Window String}
    (h : Activation pb b e act w)
    (hk : ∀ sender env, e.Brings b sender env → consumedLocally env.key = false) :
    (∀ x ∈ Effect.peerSends act, x.2.uuid ≠ "" ∧ consumedLocally x.2.key = false) ∧
    ∀ c, ∀ env ∈ Effect.delivered pb c act, consumedLocally env.key = false := by
  cases h with
  | quiet _ _ _ hfloods _ hsends =>
    refine ⟨by simp [hfloods], fun c env henv => ?_⟩
    obtain ⟨x, hx, hr⟩ := List.mem_filterMap.mp henv
    obtain ⟨env', -, hk', hx'⟩ := hsends x (List.mem_of_mem_filter hx)
    rw [hx', Wire.recv_sendFrames, Option.some.injEq] at hr
    rwa [← hr]
  | duplicate sender env _ _ _ he =>
    subst he
    simp [Effect.delivered, Effect.clientSends, Effect.peerSends]
  | new sender env ids hr =>
    obtain ⟨hb, -, -, rfl, hn, -⟩ := hr
    refine ⟨fun x hx => ?_, fun c env' henv => ?_⟩
    · rw [Effect.peerSends_routing] at hx
      obtain ⟨peer, -, rfl⟩ := List.mem_map.mp hx
      exact ⟨hb.uuid_ne, hk sender env hb⟩
    · rw [Effect.delivered_routing hn] at henv
      split_ifs at henv
      · rw [List.mem_singleton.mp henv]
        exact hk sender env hb
      · cases henv

theorem Activation.delivered_sublist {e : Event ω} {act : List (Effect ω)} {w : Window String}
    (h : Activation pb b e act w) (c : String) :
    ((Effect.delivered pb c act).filter fun env => env.uuid != "").Sublist
      (Effect.accepted pb act).toList := by
  cases h with
  | quiet _ _ _ _ _ hsends =>
    have hn : (Effect.delivered pb c act).filter (fun env => env.uuid != "") = [] := by
      refine List.filter_eq_nil_iff.mpr fun env henv => ?_
      obtain ⟨x, hx, hr⟩ := List.mem_filterMap.mp henv
      obtain ⟨env', he, -, hx'⟩ := hsends x (List.mem_of_mem_filter hx)
      rw [hx', Wire.recv_sendFrames, Option.some.injEq] at hr
      simpa [← hr] using he
    rw [hn]
    exact List.nil_sublist _
  | duplicate sender env _ _ _ he =>
    subst he
    exact List.nil_sublist _
  | new sender env ids hr =>
    obtain ⟨-, -, -, rfl, hn, -⟩ := hr
    rw [Effect.delivered_routing hn, Effect.accepted_routing]
    refine List.filter_sublist.trans ?_
    split_ifs
    · exact List.Sublist.refl _
    · exact List.nil_sublist _

/-- Something of the message leaves the broker. -/
def transmits (pb : Protobuf) (u : String) (act : List (Effect ω)) : Bool :=
  !(Effect.flooded u act).isEmpty || (Effect.clientSends act).any fun x => Effect.carries pb u x.2.1

theorem Activation.accepts_of_transmits {e : Event ω} {act : List (Effect ω)} {w : Window String}
    (h : Activation pb b e act w) (hu : u ≠ "") (ht : transmits pb u act = true) :
    0 < (Effect.dedupCalls act).count (u, false) := by
  rcases (Bool.or_eq_true _ _).mp ht with hf | hc
  · exact (h.of_uuid hu "").2.1 (by simpa using hf)
  · obtain ⟨x, hx, hcx⟩ := List.any_eq_true.mp hc
    have hm : x ∈ Effect.handed pb x.1 u act := List.mem_filter.mpr ⟨hx, by simpa using hcx⟩
    have hle := (h.of_uuid hu x.1).1
    have hpos := List.length_pos_of_mem hm
    omega

theorem History.handed_le (h : History pb b acts) (hu : u ≠ "") (c : String) :
    (acts.flatMap (Effect.handed pb c u)).length ≤
      (acts.flatMap Effect.dedupCalls).count (u, false) := by
  apply length_flatMap_le_count
  intro act ha
  obtain ⟨b₀, e, w, hact⟩ := h.activation ha
  exact (hact.of_uuid hu c).1

theorem History.transmits_le (h : History pb b acts) (hu : u ≠ "") :
    (acts.filter (transmits pb u)).length ≤ (acts.flatMap Effect.dedupCalls).count (u, false) := by
  apply length_filter_le_count
  intro act ha ht
  obtain ⟨b₀, e, w, hact⟩ := h.activation ha
  exact hact.accepts_of_transmits hu ht

/-- If a message is accepted only once, the client it was accepted from is never handed it. -/
theorem History.not_handed_back (h : History pb b acts) (hu : u ≠ "")
    (hone : (acts.flatMap Effect.dedupCalls).count (u, false) ≤ 1) {c : String}
    {act : List (Effect ω)} (hact : act ∈ acts) (hs : .dedup (some c) u false ∈ act) :
    acts.flatMap (Effect.handed pb c u) = [] := by
  have hcall : 0 < (Effect.dedupCalls act).count (u, false) := by
    rw [List.count_pos_iff]
    exact List.mem_filterMap.mpr ⟨_, hs, rfl⟩
  obtain ⟨xs, ys, rfl⟩ := List.append_of_mem hact
  simp only [List.flatMap_append, List.flatMap_cons, List.count_append] at hone
  -- every other activation accepts nothing of `u`, so it hands out nothing of it
  have others : ∀ l : List (List (Effect ω)), (∀ a ∈ l, a ∈ xs ++ act :: ys) →
      (l.flatMap Effect.dedupCalls).count (u, false) = 0 →
        l.flatMap (Effect.handed pb c u) = [] := by
    intro l hl hz
    have hle : (l.flatMap (Effect.handed pb c u)).length ≤
        (l.flatMap Effect.dedupCalls).count (u, false) := by
      apply length_flatMap_le_count
      intro a ha
      obtain ⟨b₀, e, w, h₀⟩ := h.activation (hl a ha)
      exact (h₀.of_uuid hu c).1
    exact List.eq_nil_of_length_eq_zero (by omega)
  obtain ⟨b₀, e, w, h₀⟩ := h.activation hact
  rw [List.flatMap_append, List.flatMap_cons, (h₀.of_uuid hu c).2.2 hs,
    others xs (fun a ha => List.mem_append_left _ ha) (by omega),
    others ys (fun a ha => List.mem_append_right _ (List.mem_cons_of_mem _ ha)) (by omega)]
  rfl

end Broker

end ZmqPubSub
