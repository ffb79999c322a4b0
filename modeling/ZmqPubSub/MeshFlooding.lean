import ZmqPubSub.Flooding
import ZmqPubSub.Mesh

/-!
A mesh whose links are all up and stay up, seen as flooding. A link is an edge in each direction:
upwards its outbound queue and the channel to the ROUTER socket, downwards the channel back and the
inbound queue of the broker that dialed. Messages without a uuid never leave the link and are not
part of the picture.
-/

namespace ZmqPubSub

open Containers HistoryWindow TransitionSystem

/-- A link carries messages both ways. -/
inductive Edge (ω : Type*)
  | up (w : ω)
  | down (w : ω)

namespace Envelope

def IsData (env : Envelope) : Prop := Keys.isControlMessage env.key = false

def tracked (env : Envelope) : Bool := env.uuid != ""

end Envelope

def Broker.links {ω : Type*} (b : Broker ω) : List ω := b.peers.entries.map fun e => e.2

def Network.graph {ι ω κ : Type*} (N : Network ι ω κ) : Flooding.Graph ι (Edge ω) where
  src
    | .up w => N.owner w
    | .down w => N.home (.inl w)
  dst
    | .up w => N.home (.inl w)
    | .down w => N.owner w

def Network.Linked {ι ω κ : Type*} (N : Network ι ω κ) (a b : ι) : Prop :=
  ∃ w, N.owner w = a ∧ N.home (.inl w) = b

def Network.Connected {ι ω κ : Type*} (N : Network ι ω κ) : Prop :=
  ∀ a b, Relation.EqvGen N.Linked a b

theorem Network.Connected.reaches {ι ω κ : Type*} {N : Network ι ω κ} (h : N.Connected) (a b : ι) :
    Relation.ReflTransGen N.graph.Adj a b := by
  have hsymm : Std.Symm N.graph.Adj := by
    refine ⟨?_⟩
    rintro _ _ ⟨w | w, rfl, rfl⟩
    · exact ⟨.down w, rfl, rfl⟩
    · exact ⟨.up w, rfl, rfl⟩
  induction h a b with
  | rel x y hw =>
    obtain ⟨w, ho, hh⟩ := hw
    exact .single ⟨.up w, ho, hh⟩
  | refl x => exact .refl
  | symm x y _ ih => exact Relation.ReflTransGen.stdSymm.symm x y ih
  | trans x y z _ _ ih₁ ih₂ => exact ih₁.trans ih₂

namespace Mesh

variable {ι ω κ : Type*}

section

variable [DecidableEq ι] [DecidableEq ω] (N : Network ι ω κ) (pb : Protobuf) (s : Mesh ι ω κ)

def routed (b : ι) : List Envelope := (s.activations b).filterMap (Effect.accepted pb)

def deliveries (b : ι) (clientId : String) : List Envelope :=
  (s.activations b).flatMap (Effect.delivered pb clientId)

/-- The messages on their way over a link, oldest first. -/
def onEdge : Edge ω → List Envelope
  | .up w => (s.up (.inl w)).filterMap (Wire.recv pb) ++ s.outbound (.inl w)
  | .down w => ((s.inbound (N.owner w)).filter fun x => x.1 = w).map Prod.snd ++
      (s.down (.inl w)).filterMap (Wire.recv pb)

def pending (e : Edge ω) : List Envelope := (s.onEdge N pb e).filter Envelope.tracked

/-- No message is in flight between brokers. -/
def Quiescent : Prop := ∀ e, s.pending N pb e = []

def flooding : Flooding.State ι (Edge ω) Envelope := ⟨s.routed pb, s.pending N pb⟩

def added (b : ι) (effects : List (Effect ω)) : Edge ω → List Envelope
  | .up w => linkWrites effects (.inl w : ω ⊕ κ)
  | .down w =>
    if N.home (.inl w) = b then Effect.delivered pb (N.identity (.inl w)) effects else []

variable {N pb s} {b : ι} {e : Edge ω} {ev : Broker.Event ω}

theorem recv_sentTo (b : ι) (effects : List (Effect ω)) (w : ω) :
    (sentTo N b effects (.inl w)).filterMap (Wire.recv pb) = added N pb b effects (.down w) := by
  by_cases hb : N.home (.inl w) = b
  · simp only [sentTo, added, if_pos hb, Effect.delivered, List.filterMap_map, Function.comp_def,
      beq_eq_decide]
  · simp only [sentTo, added, if_neg hb, List.filterMap_nil]

theorem onEdge_activate : (s.activate N pb b ev).onEdge N pb e =
    s.onEdge N pb e ++ added N pb b ((s.broker b).step pb ev).2 e := by
  cases e with
  | up w => simp only [onEdge, activate, added, List.append_assoc]
  | down w => simp only [onEdge, activate, List.filterMap_append, recv_sentTo, List.append_assoc]

theorem pending_activate : (s.activate N pb b ev).pending N pb e =
    s.pending N pb e ++ (added N pb b ((s.broker b).step pb ev).2 e).filter Envelope.tracked := by
  rw [pending, onEdge_activate, List.filter_append, pending]

theorem routed_activate (b' : ι) : (s.activate N pb b ev).routed pb b' = s.routed pb b' ++
    if b = b' then (Effect.accepted pb ((s.broker b).step pb ev).2).toList else [] := by
  unfold routed
  rw [activations_snoc rfl, List.filterMap_append]
  congr 1
  split_ifs
  · cases h : Effect.accepted pb ((s.broker b).step pb ev).2 <;> simp [h]
  · rfl

theorem deliveries_activate (b' : ι) (c : String) :
    (s.activate N pb b ev).deliveries pb b' c = s.deliveries pb b' c ++
      if b = b' then Effect.delivered pb c ((s.broker b).step pb ev).2 else [] := by
  unfold deliveries
  rw [activations_snoc rfl, List.flatMap_append]
  split_ifs <;> simp

end

section

variable [DecidableEq ι] [DecidableEq ω] [DecidableEq κ] (N : Network ι ω κ) (pb : Protobuf)
  (s : Mesh ι ω κ)

/-- Every link is up: its broker floods it, and the other end knows it and holds its wildcard
subscription. -/
structure Standing (broker : ι → Broker ω) : Prop where
  history : ∀ b, ∃ acts, Broker.History pb (broker b) acts
  peers : ∀ b w, w ∈ (broker b).links ↔ N.owner w = b
  nodup : ∀ b, (broker b).links.Nodup
  links : ∀ w, (broker (N.home (.inl w))).Subscribed (N.identity (.inl w)) ""

/-- The links are up and nothing has been sent over them. -/
def Established : Prop := Standing N pb s.broker ∧ s = { broker := s.broker }

/-- No broker has seen the uuid, and no client message has got it. -/
def Unused (uuid : String) : Prop :=
  (∀ b, uuid ∉ (s.broker b).window.seen) ∧ ∀ k, ∀ x ∈ s.taken k, x.2.uuid ≠ uuid

/-- The message that an event brings into the mesh: one from a client, or one without a uuid that
the other end of a link made up. -/
def entering : Event ι ω κ → Option Envelope
  | .take (.inr k) fresh _ => ((s.up (.inr k)).head?.bind (Wire.recv pb)).map
      ((s.broker (N.home (.inr k))).stamped fresh)
  | .takePeer b fresh _ => ((s.inbound b).head?.filter fun x => x.2.uuid = "").map fun x =>
      (s.broker b).stamped fresh x.2
  | _ => none

/-- Events under which the links stay up and lose nothing. -/
def Event.isFixed : Event ι ω κ → Bool
  | .addPeer _ _ _ | .removePeer _ _ | .drop _ _ => false
  | _ => true

/-- A sweep finds no client that has timed out. -/
def keepsClients : Event ι ω κ → Bool
  | .sweep b now => (s.broker b).clients.keys.all fun c => c ∈ ((s.broker b).sweep now).clients
  | _ => true

/-- Links stay, nothing is lost, nobody times out, nothing is evicted and uuids are distinct. -/
structure Undisturbed (e : Event ι ω κ) : Prop where
  isFixed : e.isFixed = true
  timeouts : s.keepsClients e = true
  evictions : ∀ s' ∈ s.step N pb e, ∀ b, (s.broker b).window.seen ⊆ (s'.broker b).window.seen
  distinct : ∀ env ∈ s.entering N pb e, s.Unused env.uuid

instance [Fintype ι] [Fintype κ] (uuid : String) : Decidable (s.Unused uuid) :=
  inferInstanceAs (Decidable (_ ∧ _))

instance [Fintype ι] [Fintype κ] (e : Event ι ω κ) : Decidable (s.Undisturbed N pb e) :=
  decidable_of_iff
    (e.isFixed = true ∧ s.keepsClients e = true ∧
      (∀ s' ∈ s.step N pb e, ∀ b, (s.broker b).window.seen ⊆ (s'.broker b).window.seen) ∧
      ∀ env ∈ s.entering N pb e, s.Unused env.uuid)
    ⟨fun ⟨h₁, h₂, h₃, h₄⟩ => ⟨h₁, h₂, h₃, h₄⟩, fun ⟨h₁, h₂, h₃, h₄⟩ => ⟨h₁, h₂, h₃, h₄⟩⟩

def FixedStep : Mesh ι ω κ → Event ι ω κ → Mesh ι ω κ → Prop :=
  guarded (Undisturbed N pb) (ofFun (step N pb))

end

variable {N : Network ι ω κ} {pb : Protobuf} {s t : Mesh ι ω κ} {b : ι} {ev : Broker.Event ω}

/-- A link sends up the messages of the flood, heartbeats and subscriptions. -/
def Upward (env : Envelope) : Prop :=
  (env.tracked = true ∧ Broker.consumedLocally env.key = false) ∨
    (env.uuid = "" ∧ (env.key = Keys.heartbeat ∨ env.key = Keys.subscribe))

structure Lawful (N : Network ι ω κ) (pb : Protobuf) (s : Mesh ι ω κ) : Prop where
  outbound : ∀ w, ∀ env ∈ s.outbound (.inl w),
    env.tracked = true ∧ Broker.consumedLocally env.key = false
  control : ∀ w, ∀ env ∈ s.control (.inl w), env.uuid = "" ∧ env.key = Keys.subscribe
  up : ∀ w, ∀ env ∈ (s.up (.inl w)).filterMap (Wire.recv pb), Upward env
  down : ∀ w, ∀ env ∈ (s.down (.inl w)).filterMap (Wire.recv pb),
    Broker.consumedLocally env.key = false
  inbound : ∀ b, ∀ x ∈ s.inbound b, N.owner x.1 = b ∧ Broker.consumedLocally x.2.key = false

/-- Messages move, but no broker does anything. -/
structure Moved (N : Network ι ω κ) (pb : Protobuf) (s t : Mesh ι ω κ) : Prop where
  broker : t.broker = s.broker
  log : t.log = s.log
  lawful : Lawful N pb t

/-- The event leaves the links of broker `b` up. -/
structure Visit (N : Network ι ω κ) (pb : Protobuf) (s : Mesh ι ω κ) (b : ι) (ev : Broker.Event ω) :
    Prop where
  peers : ((s.broker b).step pb ev).1.peers = (s.broker b).peers
  links : ∀ w, N.home (.inl w) = b → ((s.broker b).step pb ev).1.Subscribed (N.identity (.inl w)) ""
  keys : ∀ sender env, ev.Brings (s.broker b) sender env → Broker.consumedLocally env.key = false

theorem Standing.wellFormed {broker : ι → Broker ω} (h : Standing N pb broker) (b : ι) :
    (broker b).WellFormed := by
  obtain ⟨acts, ha⟩ := h.history b
  exact ha.wellFormed

theorem Standing.known {broker : ι → Broker ω} (h : Standing N pb broker) (w : ω) :
    N.identity (.inl w) ∈ (broker (N.home (.inl w))).clients :=
  (h.wellFormed _).known_of_subscribed (h.links w)

theorem Standing.activation (h : Standing N pb s.broker) (b : ι) (ev : Broker.Event ω) :
    Broker.Activation pb (s.broker b) ev ((s.broker b).step pb ev).2
      ((s.broker b).step pb ev).1.window :=
  Broker.step_activation (h.wellFormed b) ev

/-- The links stay up under every event that is not one of their own messages. -/
theorem visit_of_others (hs : Standing N pb s.broker)
    (hsender : ∀ w, N.home (.inl w) = b → ev.sender ≠ some (N.identity (.inl w)))
    (hsweep : ∀ now, ev = .sweep now →
      ∀ c ∈ (s.broker b).clients, c ∈ ((s.broker b).sweep now).clients)
    (hadd : ∀ key peer, ev ≠ .addPeer key peer) (hremove : ∀ key, ev ≠ .removePeer key)
    (hk : ∀ sender env, ev.Brings (s.broker b) sender env →
      Broker.consumedLocally env.key = false) : Visit N pb s b ev := by
  refine ⟨Broker.step_peers hadd hremove, ?_, hk⟩
  rintro w rfl
  exact Broker.subscribed_of_others (hs.wellFormed _) (hsender w rfl) hsweep (hs.links w)

theorem visit_of_link (hs : Standing N pb s.broker) {w : ω} {fresh : Uuid} {now : Time}
    {env : Envelope} (hu : Upward env) : Visit N pb s (N.home (.inl w))
      (.fromRouter fresh now env (N.identity (.inl w))) := by
  refine ⟨Broker.step_peers (by simp) (by simp), ?_, ?_⟩
  · intro w' hw
    by_cases hww : w' = w
    · subst hww
      have hne : env.key ≠ Keys.disconnect ∧ env.key ≠ Keys.unsubscribe := by
        rcases hu with ⟨-, hk⟩ | ⟨-, hk | hk⟩
        · simp only [Broker.consumedLocally, Bool.or_eq_false_iff, beq_eq_false_iff_ne] at hk
          exact ⟨hk.1.1.1.1, hk.2⟩
        · rw [hk]
          decide
        · rw [hk]
          decide
      rcases Broker.processFromRouter_own (hs.wellFormed _) fresh now env
        (N.identity (.inl w')) with ⟨hd, -⟩ | ⟨hn, -⟩ | ⟨-, -, hsub⟩
      · exact absurd hd hne.1
      · exact absurd (hs.known w') hn
      · exact (hsub "").mpr (Or.inr ⟨hs.links w', fun hd => hne.2 hd.1⟩)
    · have hid : N.identity (.inl w) ≠ N.identity (.inl w') := by
        intro hid
        exact hww (Sum.inl_injective (N.identity_inj _ _ hw hid.symm))
      refine Broker.subscribed_of_others (hs.wellFormed _) ?_ (by simp) (hw ▸ hs.links w')
      exact fun h => hid (Option.some.inj h)
  · intro sender env' hb
    cases hb with
    | fromRouter _ _ _ _ hr =>
      rw [Broker.stamped_key]
      exact (hr.resolve_left (by simp)).2.2

section

variable [DecidableEq ω] [DecidableEq κ]

theorem up_push (s : Mesh ι ω κ) (p : ω ⊕ κ) (env : Envelope) (q : ω ⊕ κ) :
    (push s.up p (Wire.send pb env) q).filterMap (Wire.recv pb) =
      (s.up q).filterMap (Wire.recv pb) ++ if q = p then [env] else [] := by
  rw [push_apply]
  split_ifs <;> simp

theorem Lawful.upward_push (h : Lawful N pb s) {p : ω ⊕ κ} {env : Envelope}
    (henv : ∀ w, (.inl w : ω ⊕ κ) = p → Upward env) (w : ω) :
    ∀ env' ∈ (push s.up p (Wire.send pb env) (.inl w)).filterMap (Wire.recv pb), Upward env' := by
  intro env' hm
  rw [up_push, List.mem_append] at hm
  rcases hm with hm | hm
  · exact h.up w env' hm
  · split_ifs at hm with hw
    · rw [List.mem_singleton.mp hm]
      exact henv w hw
    · cases hm

theorem Lawful.pop_down (h : Lawful N pb s) {p : ω ⊕ κ} {group : Wire.Group}
    {rest : List Wire.Group}
    (hd : s.down p = group :: rest) (w : ω) :
    ∀ env ∈ (Function.update s.down p rest (.inl w)).filterMap (Wire.recv pb),
      Broker.consumedLocally env.key = false := by
  intro env hm
  obtain ⟨g, hg, hgr⟩ := List.mem_filterMap.mp hm
  exact h.down w env (List.mem_filterMap.mpr ⟨g, mem_of_mem_pop hd hg, hgr⟩)

theorem Lawful.pop_up (h : Lawful N pb s) {p : ω ⊕ κ} {group : Wire.Group} {rest : List Wire.Group}
    (hu : s.up p = group :: rest) : Lawful N pb { s with up := Function.update s.up p rest } := by
  refine ⟨h.outbound, h.control, ?_, h.down, h.inbound⟩
  intro w env hm
  obtain ⟨g, hg, hgr⟩ := List.mem_filterMap.mp hm
  exact h.up w env (List.mem_filterMap.mpr ⟨g, mem_of_mem_pop hu hg, hgr⟩)

end

variable [DecidableEq ι] [DecidableEq ω]

/-- Where the message comes from that the event brings to broker `b`. -/
inductive Arrival (N : Network ι ω κ) (pb : Protobuf) (s t : Mesh ι ω κ) (b : ι)
    (ev : Broker.Event ω) : Prop
  /-- From outside of the flood. -/
  | enters (same : t.flooding N pb = s.flooding N pb)
      (unused : ∀ sender env, ev.Brings (s.broker b) sender env → s.Unused env.uuid ∧
        ∀ w, N.home (.inl w) = b → sender ≠ some (N.identity (.inl w)))
  /-- Over an edge. Only data messages are sure to be brought. -/
  | crosses (e : Edge ω) (m : Envelope) (dst : N.graph.dst e = b)
      (head : ∃ rest, s.pending N pb e = m :: rest)
      (removes : Flooding.Removes e m (s.flooding N pb) (t.flooding N pb))
      (brings : ∀ sender env, ev.Brings (s.broker b) sender env → env = m ∧
        ∀ w, N.home (.inl w) = b → sender = some (N.identity (.inl w)) → e = .up w)
      (data : m.IsData → ∃ sender, ev.Brings (s.broker b) sender m)

theorem flooding_silent {w : Window String}
    (h : Broker.Activation pb (s.broker b) ev ((s.broker b).step pb ev).2 w)
    (ha : Effect.accepted pb ((s.broker b).step pb ev).2 = none)
    (hp : Effect.peerSends ((s.broker b).step pb ev).2 = []) :
    (s.activate N pb b ev).flooding N pb = s.flooding N pb := by
  have hr : (s.activate N pb b ev).routed pb = s.routed pb := by
    funext b'
    rw [routed_activate, ha]
    split_ifs <;> simp
  have he : (s.activate N pb b ev).pending N pb = s.pending N pb := by
    funext e
    rw [pending_activate, List.append_right_eq_self]
    cases e with
    | up w => simp [added, linkWrites, hp]
    | down w =>
      have hs := h.delivered_sublist (N.identity (.inl w))
      rw [ha] at hs
      unfold added
      dsimp only
      split_ifs
      · exact List.sublist_nil.mp hs
      · rfl
  rw [flooding, flooding, hr, he]

theorem linkWrites_routing {sender : Option String} {env : Envelope} {ids : List String}
    {peers : List ω} (hn : peers.Nodup) (w : ω) :
    linkWrites (Effect.routing pb sender env ids peers) (.inl w : ω ⊕ κ) =
      if w ∈ peers then [env] else [] := by
  have hf : peers.filter ((fun x : ω × Envelope => decide (x.1 = w)) ∘ fun peer => (peer, env)) =
      peers.filter (· == w) := by
    refine List.filter_congr fun peer _ => ?_
    rw [beq_eq_decide]
    rfl
  rw [linkWrites, Effect.peerSends_routing, List.filter_map, hf, List.filter_beq,
    List.Nodup.count hn]
  split_ifs <;> simp

/-- A broker that routes a message accepts it and forwards it over all its links in both directions,
except back over a link that it came over. -/
theorem accepts_of_routed (h : Standing N pb s.broker) {w : Window String} {sender : Option String}
    {env : Envelope} {ids : List String}
    (hr : Broker.Routed pb (s.broker b) ev ((s.broker b).step pb ev).2 w sender env ids)
    (hnew : env ∉ s.routed pb b)
    (hecho : ∀ w, N.home (.inl w) = b → sender = some (N.identity (.inl w)) →
      env ∈ s.routed pb (N.owner w)) :
    Flooding.Accepts N.graph b env (s.flooding N pb) ((s.activate N pb b ev).flooding N pb) := by
  have heff : ((s.broker b).step pb ev).2 =
      Effect.routing pb sender env ids (s.broker b).links := hr.effects_eq
  have ht : env.tracked = true := by simpa [Envelope.tracked] using hr.brings.uuid_ne
  have hacc : Effect.accepted pb ((s.broker b).step pb ev).2 = some env := by
    rw [heff, Effect.accepted_routing]
  have hup : ∀ w, added N pb b ((s.broker b).step pb ev).2 (.up w) =
      if N.owner w = b then [env] else [] := by
    intro w
    rw [heff, added, linkWrites_routing (h.nodup b)]
    exact if_congr (h.peers b w) rfl rfl
  have hdown : ∀ w, added N pb b ((s.broker b).step pb ev).2 (.down w) =
      if N.home (.inl w) = b ∧ N.identity (.inl w) ∈ ids then [env] else [] := by
    intro w
    rw [heff, added, Effect.delivered_routing hr.nodup, ite_and]
  refine ⟨hnew, ?_, ?_, ?_, ?_⟩
  · simp [flooding, routed_activate, hacc]
  · intro b' hb
    simp [flooding, routed_activate, hb.symm]
  · rintro (w | w) hw
    · left
      have hw' : N.owner w = b := hw
      simp [flooding, pending_activate, hup, hw', ht]
    · have hw' : N.home (.inl w) = b := hw
      by_cases hs : sender = some (N.identity (.inl w))
      · right
        have hni : N.identity (.inl w) ∉ ids := fun hi => ((hr.recipients _).mp hi).2.2 hs
        refine ⟨?_, hecho w hw' hs⟩
        simp [flooding, pending_activate, hdown, hni]
      · left
        have hi : N.identity (.inl w) ∈ ids := by
          subst hw'
          exact (hr.recipients _).mpr ⟨h.known w, Or.inr (h.links w), hs⟩
        simp [flooding, pending_activate, hdown, hw', hi, ht]
  · rintro (w | w) hw
    · have hw' : N.owner w ≠ b := hw
      simp [flooding, pending_activate, hup, hw']
    · have hw' : N.home (.inl w) ≠ b := hw
      simp [flooding, pending_activate, hdown, hw']

theorem removes_activate {e : Edge ω} {m : Envelope}
    (h : Flooding.Removes e m (s.flooding N pb) (t.flooding N pb)) (hb : t.broker = s.broker) :
    Flooding.Removes e m ((s.activate N pb b ev).flooding N pb)
      ((t.activate N pb b ev).flooding N pb) := by
  obtain ⟨p, q, hs, ht⟩ : ∃ p q, s.pending N pb e = p ++ m :: q ∧ t.pending N pb e = p ++ q :=
    h.split
  have hothers : ∀ e', e' ≠ e → t.pending N pb e' = s.pending N pb e' := h.others
  have hacc : t.routed pb = s.routed pb := h.accepted
  refine ⟨⟨p, q ++ (added N pb b ((s.broker b).step pb ev).2 e).filter Envelope.tracked, ?_, ?_⟩,
    ?_, ?_⟩
  · simp only [flooding, pending_activate, hs, List.append_assoc, List.cons_append]
  · simp only [flooding, pending_activate, hb, ht, List.append_assoc]
  · intro e' he
    simp only [flooding, pending_activate, hb, hothers e' he]
  · funext b'
    simp only [flooding, routed_activate, hb, hacc]

theorem Lawful.activate (h : Lawful N pb s) (hs : Standing N pb s.broker)
    (hk : ∀ sender env, ev.Brings (s.broker b) sender env →
      Broker.consumedLocally env.key = false) : Lawful N pb (s.activate N pb b ev) := by
  obtain ⟨hpeer, hclient⟩ := (hs.activation b ev).keys hk
  refine ⟨?_, h.control, h.up, ?_, h.inbound⟩
  · intro w env henv
    rcases List.mem_append.mp henv with henv | henv
    · exact h.outbound w env henv
    · obtain ⟨x, hx, rfl⟩ := List.mem_map.mp henv
      obtain ⟨hu, hk⟩ := hpeer x (List.mem_of_mem_filter hx)
      exact ⟨by simpa [Envelope.tracked] using hu, hk⟩
  · intro w env henv
    have he : (s.activate N pb b ev).down (.inl w) =
        s.down (.inl w) ++ sentTo N b ((s.broker b).step pb ev).2 (.inl w) := rfl
    rw [he, List.filterMap_append, recv_sentTo, List.mem_append] at henv
    rcases henv with henv | henv
    · exact h.down w env henv
    · unfold added at henv
      dsimp only at henv
      split_ifs at henv
      · exact hclient _ env henv
      · cases henv

theorem flooding_congr (hl : t.log = s.log) (hp : ∀ e, t.pending N pb e = s.pending N pb e) :
    t.flooding N pb = s.flooding N pb := by
  have hr : t.routed pb = s.routed pb := by
    funext b
    rw [routed, routed, activations, activations, hl]
  rw [flooding, flooding, hr, funext hp]

theorem removes_of_onEdge {e : Edge ω} {m : Envelope} {p q : List Envelope} (hl : t.log = s.log)
    (hm : m.tracked = true) (hs : s.onEdge N pb e = p ++ m :: q) (ht : t.onEdge N pb e = p ++ q)
    (hothers : ∀ e', e' ≠ e → t.onEdge N pb e' = s.onEdge N pb e') :
    Flooding.Removes e m (s.flooding N pb) (t.flooding N pb) := by
  refine ⟨⟨p.filter Envelope.tracked, q.filter Envelope.tracked, ?_, ?_⟩, ?_, ?_⟩
  · simp [flooding, pending, hs, hm]
  · simp [flooding, pending, ht]
  · intro e' he'
    simp only [flooding, pending, hothers e' he']
  · funext b
    simp only [flooding, routed, activations, hl]

theorem flooding_eq_of_onEdge {e : Edge ω} {m : Envelope} {p q : List Envelope} (hl : t.log = s.log)
    (hm : m.tracked = false) (hs : s.onEdge N pb e = p ++ m :: q) (ht : t.onEdge N pb e = p ++ q)
    (hothers : ∀ e', e' ≠ e → t.onEdge N pb e' = s.onEdge N pb e') :
    t.flooding N pb = s.flooding N pb := by
  refine flooding_congr hl fun e' => ?_
  by_cases he : e' = e
  · subst he
    simp [pending, hs, ht, hm]
  · rw [pending, pending, hothers e' he]

variable [DecidableEq κ]

/-- The record that is kept of messages from clients. -/
inductive Records (N : Network ι ω κ) (s t : Mesh ι ω κ) (b : ι) (ev : Broker.Event ω) : Prop
  | other (taken : t.taken = s.taken)
      (sender : ∀ k, N.home (.inr k) = b → ev.sender ≠ some (N.identity (.inr k)))
  | client (k : κ) (fresh : Uuid) (now : Time) (env : Envelope) (home : N.home (.inr k) = b)
      (event : ev = .fromRouter fresh now env (N.identity (.inr k)))
      (unused : s.Unused ((s.broker b).stamped fresh env).uuid)
      (taken : t.taken = if Keys.isControlMessage env.key then s.taken
        else push s.taken k (env, (s.broker b).stamped fresh env))

inductive Fires (N : Network ι ω κ) (pb : Protobuf) (s : Mesh ι ω κ) : Mesh ι ω κ → Prop
  | moves {t : Mesh ι ω κ} : Moved N pb s t → t.taken = s.taken →
      t.flooding N pb = s.flooding N pb → Fires N pb s t
  /-- The worker of a link keeps a message to itself. -/
  | keeps {t : Mesh ι ω κ} (e : Edge ω) (m : Envelope) : Moved N pb s t → t.taken = s.taken →
      Flooding.Removes e m (s.flooding N pb) (t.flooding N pb) → ¬ m.IsData → Fires N pb s t
  | visits {t : Mesh ι ω κ} (b : ι) (ev : Broker.Event ω) : Moved N pb s t → Visit N pb s b ev →
      Arrival N pb s t b ev → Records N s t b ev → Fires N pb s (t.activate N pb b ev)

theorem fires_send (h : Lawful N pb s) {k : κ} {env : Envelope}
    (he : s.step N pb (.send k env) = some t) : Fires N pb s t := by
  cases step_acts he with
  | sendKey =>
    refine .moves ⟨rfl, rfl, h.outbound, ?_, h.up, h.down, h.inbound⟩ rfl rfl
    intro w env' henv
    dsimp only at henv
    rcases mem_push.mp henv with henv | ⟨hw, -⟩
    · exact h.control w env' henv
    · cases hw
  | sendData =>
    refine .moves ⟨rfl, rfl, ?_, h.control, h.up, h.down, h.inbound⟩ rfl
      (flooding_congr rfl fun e => ?_)
    · intro w env' henv
      dsimp only at henv
      rcases mem_push.mp henv with henv | ⟨hw, -⟩
      · exact h.outbound w env' henv
      · cases hw
    · cases e with
      | up w => simp [pending, onEdge, push_apply]
      | down w => rfl

theorem fires_sendControl (h : Lawful N pb s) {p : ω ⊕ κ}
    (he : s.step N pb (.sendControl p) = some t) : Fires N pb s t := by
  cases step_acts he with
  | @sendControl _ env rest hc =>
    have hkey : ∀ w, (.inl w : ω ⊕ κ) = p → env.uuid = "" ∧ env.key = Keys.subscribe := by
      rintro w rfl
      exact h.control w env (hc ▸ List.mem_cons_self)
    refine .moves ⟨rfl, rfl, h.outbound, ?_, ?_, h.down, h.inbound⟩ rfl
      (flooding_congr rfl fun e => ?_)
    · intro w env' henv
      exact h.control w env' (mem_of_mem_pop hc henv)
    · exact h.upward_push fun w hw => Or.inr ⟨(hkey w hw).1, Or.inr (hkey w hw).2⟩
    · cases e with
      | up w =>
        simp only [pending, onEdge, up_push, List.filter_append]
        split_ifs with hw
        · simp [Envelope.tracked, (hkey w hw).1]
        · simp
      | down w => rfl

theorem fires_sendOutbound (h : Lawful N pb s) {p : ω ⊕ κ}
    (he : s.step N pb (.sendOutbound p) = some t) : Fires N pb s t := by
  cases step_acts he with
  | @sendOutbound _ env rest hc =>
    refine .moves ⟨rfl, rfl, ?_, h.control, h.upward_push ?_, h.down, h.inbound⟩ rfl
      (flooding_congr rfl fun e => ?_)
    · intro w env' henv
      exact h.outbound w env' (mem_of_mem_pop hc henv)
    · rintro w rfl
      exact Or.inl (h.outbound w env (hc ▸ List.mem_cons_self))
    · cases e with
      | up w =>
        simp only [pending, onEdge, up_push, Function.update_apply]
        split_ifs with hw
        · rw [hw, hc, List.append_assoc, List.singleton_append]
        · rw [List.append_nil]
      | down w => rfl

theorem fires_sendHeartbeat (h : Lawful N pb s) {p : ω ⊕ κ}
    (he : s.step N pb (.sendHeartbeat p) = some t) : Fires N pb s t := by
  obtain rfl := Option.some.inj he
  refine .moves ⟨rfl, rfl, h.outbound, h.control, h.upward_push ?_, h.down, h.inbound⟩ rfl
    (flooding_congr rfl fun e => ?_)
  · intro w hw
    exact Or.inr ⟨rfl, Or.inl rfl⟩
  · cases e with
    | up w =>
      have hu : (heartbeatEnvelope (N.identity p)).tracked = false := rfl
      simp only [pending, onEdge, up_push, List.filter_append]
      split_ifs
      · simp [hu]
      · simp
    | down w => rfl

theorem fires_kept {w : ω} {group : Wire.Group} {rest : List Wire.Group} {env : Envelope}
    (hd : s.down (.inl w) = group :: rest) (hr : Wire.recv pb group = some env)
    (hm : Moved N pb s t) (htaken : t.taken = s.taken) (hup : t.up = s.up)
    (hout : t.outbound = s.outbound) (hin : t.inbound = s.inbound)
    (htd : t.down = Function.update s.down (.inl w) rest) (hdata : ¬ env.IsData) :
    Fires N pb s t := by
  have hs : s.onEdge N pb (.down w) =
      ((s.inbound (N.owner w)).filter fun x => x.1 = w).map Prod.snd ++
        env :: rest.filterMap (Wire.recv pb) := by
    simp [onEdge, hd, hr]
  have ht : t.onEdge N pb (.down w) =
      ((s.inbound (N.owner w)).filter fun x => x.1 = w).map Prod.snd ++
        rest.filterMap (Wire.recv pb) := by
    simp [onEdge, htd, hin]
  have hothers : ∀ e, e ≠ .down w → t.onEdge N pb e = s.onEdge N pb e := by
    rintro (w' | w') hne
    · simp only [onEdge, hup, hout]
    · have hw : w' ≠ w := fun hw => hne (hw ▸ rfl)
      simp [onEdge, htd, hin, hw]
  cases htr : env.tracked with
  | true => exact .keeps _ _ hm htaken (removes_of_onEdge hm.log htr hs ht hothers) hdata
  | false => exact .moves hm htaken (flooding_eq_of_onEdge hm.log htr hs ht hothers)

/-- What the worker of a link does with a message that it reads. -/
theorem fires_linkReceives (h : Lawful N pb s) {w : ω} {group : Wire.Group} {rest : List Wire.Group}
    {env : Envelope} (hd : s.down (.inl w) = group :: rest) (hr : Wire.recv pb group = some env) :
    Fires N pb s
      (linkReceives N { s with down := Function.update s.down (.inl w) rest } w env) := by
  have hdown := h.pop_down hd
  unfold linkReceives
  dsimp only
  split_ifs with hack hreset
  · refine fires_kept hd hr ⟨rfl, rfl, h.outbound, h.control, h.up, hdown, h.inbound⟩
      rfl rfl rfl rfl
      rfl ?_
    simp [Envelope.IsData, Keys.isControlMessage, hack]
  · refine fires_kept hd hr ⟨rfl, rfl, h.outbound, ?_, h.up, hdown, h.inbound⟩
      rfl rfl rfl rfl rfl ?_
    · intro w' env' hm
      dsimp only at hm
      rcases mem_push.mp hm with hm | ⟨-, rfl⟩
      · exact h.control w' env' hm
      · exact ⟨rfl, rfl⟩
    · simp [Envelope.IsData, Keys.isControlMessage, hreset]
  · refine .moves ⟨rfl, rfl, h.outbound, h.control, h.up, hdown, ?_⟩ rfl
      (flooding_congr rfl fun e => ?_)
    · intro b x hm
      dsimp only at hm
      rcases mem_push.mp hm with hm | ⟨rfl, rfl⟩
      · exact h.inbound b x hm
      · exact ⟨rfl, h.down w env (List.mem_filterMap.mpr ⟨group, hd ▸ List.mem_cons_self, hr⟩)⟩
    · cases e with
      | up w' => rfl
      | down w' =>
        by_cases hw : w' = w
        · subst hw
          simp [pending, onEdge, push_apply, hd, hr]
        · have hw' : w ≠ w' := fun h => hw h.symm
          simp only [pending, onEdge, push_apply]
          split_ifs <;> simp [hw, hw']

theorem fires_recv (h : Lawful N pb s) {p : ω ⊕ κ} (he : s.step N pb (.recv p) = some t) :
    Fires N pb s t := by
  cases step_acts he with
  | recv hd hr => exact fires_linkReceives h hd hr
  | recvNothing hd hr =>
    refine .moves ⟨rfl, rfl, h.outbound, h.control, h.up, h.pop_down hd, h.inbound⟩ rfl
      (flooding_congr rfl fun e => ?_)
    cases e with
    | up w => rfl
    | down w =>
      simp only [pending, onEdge, Function.update_apply]
      split_ifs with hw
      · rw [hw, hd, List.filterMap_cons_none (hr w hw.symm)]
      · rfl

theorem fires_take_link (hs : Standing N pb s.broker) (h : Lawful N pb s) {w : ω} {fresh : Uuid}
    {now : Time} (he : s.step N pb (.take (.inl w) fresh now) = some t) : Fires N pb s t := by
  have hothers : ∀ rest e, e ≠ .up w → onEdge N pb
      { s with up := Function.update s.up (.inl w) rest } e = s.onEdge N pb e := by
    rintro rest (w' | w') hne
    · have hw : w' ≠ w := fun hw => hne (hw ▸ rfl)
      simp [onEdge, hw]
    · rfl
  cases step_acts he with
  | takeNothing hu hr =>
    refine .moves ⟨rfl, rfl, h.pop_up hu⟩ rfl (flooding_congr rfl fun e => ?_)
    by_cases hw : e = .up w
    · subst hw
      simp [pending, onEdge, hu, hr]
    · rw [pending, hothers _ e hw, pending]
  | @take _ _ _ group rest env hu hr =>
    have hup : Upward env :=
      h.up w env (List.mem_filterMap.mpr ⟨group, hu ▸ List.mem_cons_self, hr⟩)
    have hson : s.onEdge N pb (.up w) =
        [] ++ env :: (rest.filterMap (Wire.recv pb) ++ s.outbound (.inl w)) := by
      simp [onEdge, hu, hr]
    have hton : onEdge N pb { s with up := Function.update s.up (.inl w) rest } (.up w) =
        [] ++ (rest.filterMap (Wire.recv pb) ++ s.outbound (.inl w)) := by
      simp [onEdge]
    refine .visits _ _ ⟨rfl, rfl, h.pop_up hu⟩ (visit_of_link hs hup) ?_ (.other rfl ?_)
    · rcases hup with ⟨htr, hk⟩ | ⟨hue, hk⟩
      · -- a message of the flood keeps its uuid and is routed
        have hst : (s.broker (N.home (.inl w))).stamped fresh env = env :=
          Broker.stamped_of_ne (by simpa [Envelope.tracked] using htr)
        have hhead : ∃ l, s.pending N pb (.up w) = env :: l := by
          rw [pending, hson, List.nil_append, List.filter_cons_of_pos htr]
          exact ⟨_, rfl⟩
        refine .crosses (.up w) env rfl hhead
          (removes_of_onEdge rfl htr hson hton (hothers rest)) ?_ ?_
        · intro sender env' hb
          cases hb
          refine ⟨hst, fun w' hw hid => ?_⟩
          exact congrArg Edge.up
            (Sum.inl_injective (N.identity_inj _ _ hw.symm (Option.some.inj hid)))
        · intro _
          have hb := @Broker.Event.Brings.fromRouter ω (s.broker (N.home (.inl w))) fresh now env
            (N.identity (.inl w)) (Or.inr ⟨rfl, hs.known w, hk⟩)
          rw [hst] at hb
          exact ⟨_, hb⟩
      · -- heartbeats and subscriptions are consumed
        refine .enters (flooding_eq_of_onEdge rfl ?_ hson hton (hothers rest)) ?_
        · simp [Envelope.tracked, hue]
        · intro sender env' hb
          cases hb with
          | fromRouter _ _ _ _ hr =>
            have hc := (hr.resolve_left (by simp)).2.2
            rcases hk with hk | hk <;> (rw [hk] at hc; cases hc)
    · intro k hk hid
      cases N.identity_inj _ _ hk (Option.some.inj hid).symm

theorem fires_take_client (hs : Standing N pb s.broker) (h : Lawful N pb s) {k : κ} {fresh : Uuid}
    {now : Time} (hd : s.Undisturbed N pb (.take (.inr k) fresh now))
    (he : s.step N pb (.take (.inr k) fresh now) = some t) : Fires N pb s t := by
  have hsame : ∀ rest, flooding N pb { s with up := Function.update s.up (.inr k) rest } =
      s.flooding N pb := by
    intro rest
    refine flooding_congr rfl fun e => ?_
    cases e with
    | up w => simp [pending, onEdge]
    | down w => rfl
  cases step_acts he with
  | takeNothing hu hr => exact .moves ⟨rfl, rfl, h.pop_up hu⟩ rfl (hsame _)
  | @take _ _ _ group rest env hu hr =>
    have hlaw := h.pop_up hu
    have hunused : s.Unused ((s.broker (N.home (.inr k))).stamped fresh env).uuid :=
      hd.distinct _ (by simp [entering, hu, hr])
    have hbrings : ∀ sender env', Broker.Event.Brings (s.broker (N.home (.inr k)))
        (.fromRouter fresh now env (N.identity (.inr k))) sender env' →
        sender = some (N.identity (.inr k)) ∧
          env' = (s.broker (N.home (.inr k))).stamped fresh env ∧
          Broker.consumedLocally env.key = false := by
      intro sender env' hb
      cases hb with
      | fromRouter _ _ _ _ hr => exact ⟨rfl, rfl, (hr.resolve_left (by simp)).2.2⟩
    have hlink : ∀ w, N.home (.inl w) = N.home (.inr k) →
        (some (N.identity (.inr k)) : Option String) ≠ some (N.identity (.inl w)) := by
      intro w hw hid
      cases N.identity_inj _ _ hw (Option.some.inj hid).symm
    rw [recordTaken_inr]
    refine .visits _ _ ?_ (visit_of_others hs hlink (by simp) (by simp) (by simp) ?_) ?_ ?_
    · exact ⟨rfl, rfl, hlaw.outbound, hlaw.control, hlaw.up, hlaw.down, hlaw.inbound⟩
    · intro sender env' hb
      obtain ⟨-, rfl, hk⟩ := hbrings sender env' hb
      rwa [Broker.stamped_key]
    · refine .enters (hsame rest) fun sender env' hb => ?_
      obtain ⟨rfl, rfl, -⟩ := hbrings sender env' hb
      exact ⟨hunused, hlink⟩
    · exact .client k fresh now env rfl rfl hunused rfl

theorem fires_takePeer (hs : Standing N pb s.broker) (h : Lawful N pb s) {fresh : Uuid} {now : Time}
    (hd : s.Undisturbed N pb (.takePeer b fresh now))
    (he : s.step N pb (.takePeer b fresh now) = some t) : Fires N pb s t := by
  cases step_acts he with
  | @takePeer _ _ _ w env rest hin =>
    obtain ⟨rfl, hk⟩ := h.inbound b (w, env) (hin ▸ List.mem_cons_self)
    have hson : s.onEdge N pb (.down w) = [] ++ env ::
        ((rest.filter fun x => x.1 = w).map Prod.snd ++
          (s.down (.inl w)).filterMap (Wire.recv pb)) := by
      simp [onEdge, hin]
    have hton :
        onEdge N pb { s with inbound := Function.update s.inbound (N.owner w) rest } (.down w) =
        [] ++ ((rest.filter fun x => x.1 = w).map Prod.snd ++
          (s.down (.inl w)).filterMap (Wire.recv pb)) := by
      simp [onEdge]
    have hothers : ∀ e, e ≠ .down w → onEdge N pb
        { s with inbound := Function.update s.inbound (N.owner w) rest } e = s.onEdge N pb e := by
      rintro (w' | w') hne
      · rfl
      · have hw : w ≠ w' := fun hw => hne (hw ▸ rfl)
        simp only [onEdge, Function.update_apply]
        split_ifs with ho
        · simp [ho, hin, hw]
        · rfl
    have hbrings : ∀ sender env',
        Broker.Event.Brings (s.broker (N.owner w)) (.fromPeer fresh now env) sender env' →
        sender = none ∧ env' = (s.broker (N.owner w)).stamped fresh env := by
      intro sender env' hb
      cases hb
      exact ⟨rfl, rfl⟩
    refine .visits _ _ ⟨rfl, rfl, h.outbound, h.control, h.up, h.down, ?_⟩
      (visit_of_others hs (by simp [Broker.Event.sender]) (by simp) (by simp) (by simp) ?_) ?_
      (.other rfl (by simp [Broker.Event.sender]))
    · intro b x hx
      exact h.inbound b x (mem_of_mem_pop hin hx)
    · intro sender env' hb
      rw [(hbrings sender env' hb).2, Broker.stamped_key]
      exact hk
    · cases htr : env.tracked with
      | true =>
        have hst : (s.broker (N.owner w)).stamped fresh env = env :=
          Broker.stamped_of_ne (by simpa [Envelope.tracked] using htr)
        have hhead : ∃ l, s.pending N pb (.down w) = env :: l := by
          rw [pending, hson, List.nil_append, List.filter_cons_of_pos htr]
          exact ⟨_, rfl⟩
        refine .crosses (.down w) env rfl hhead (removes_of_onEdge rfl htr hson hton hothers) ?_ ?_
        · intro sender env' hb
          obtain ⟨rfl, rfl⟩ := hbrings sender env' hb
          exact ⟨hst, fun w' _ hid => by cases hid⟩
        · intro hdata
          have hb := @Broker.Event.Brings.fromPeer ω (s.broker (N.owner w)) fresh now env
            (Or.inl ⟨rfl, Broker.ignoredFromPeer_of_data hdata⟩)
          rw [hst] at hb
          exact ⟨_, hb⟩
      | false =>
        -- statistics of the other broker, which get their uuid here
        have hu : env.uuid = "" := by simpa [Envelope.tracked] using htr
        refine .enters (flooding_eq_of_onEdge rfl htr hson hton hothers) fun sender env' hb => ?_
        obtain ⟨rfl, rfl⟩ := hbrings sender env' hb
        exact ⟨hd.distinct _ (by simp [entering, hin, hu]), fun w' _ hid => by cases hid⟩

theorem fires_silent (hs : Standing N pb s.broker) (h : Lawful N pb s) (hsender : ev.sender = none)
    (hbrings : ∀ sender env, ¬ ev.Brings (s.broker b) sender env)
    (hsweep : ∀ now, ev = .sweep now →
      ∀ c ∈ (s.broker b).clients, c ∈ ((s.broker b).sweep now).clients)
    (hadd : ∀ key peer, ev ≠ .addPeer key peer) (hremove : ∀ key, ev ≠ .removePeer key) :
    Fires N pb s (s.activate N pb b ev) := by
  have hvisit : Visit N pb s b ev :=
    visit_of_others hs (by simp [hsender]) hsweep hadd hremove fun sender env hb =>
      absurd hb (hbrings sender env)
  exact .visits b ev ⟨rfl, rfl, h⟩ hvisit
    (.enters rfl fun sender env hb => absurd hb (hbrings sender env))
    (.other rfl (by simp [hsender]))

theorem step_fires (hs : Standing N pb s.broker) (h : Lawful N pb s) {e : Event ι ω κ}
    (he : FixedStep N pb s e t) : Fires N pb s t := by
  obtain ⟨hd, he⟩ := he
  cases e with
  | send k env => exact fires_send h he
  | sendControl p => exact fires_sendControl h he
  | sendOutbound p => exact fires_sendOutbound h he
  | sendHeartbeat p => exact fires_sendHeartbeat h he
  | take p fresh now =>
    cases p with
    | inl w => exact fires_take_link hs h he
    | inr k => exact fires_take_client hs h hd he
  | recv p => exact fires_recv h he
  | takePeer b fresh now => exact fires_takePeer hs h hd he
  | sweep b now =>
    obtain rfl := Option.some.inj he
    refine fires_silent hs h rfl (fun _ _ hb => by cases hb) ?_ (by simp) (by simp)
    rintro _ ⟨⟩ c hc
    simpa using List.all_eq_true.mp hd.timeouts c (AList.mem_keys.mp hc)
  | broadcastStats b now =>
    obtain rfl := Option.some.inj he
    exact fires_silent hs h rfl (fun _ _ hb => by cases hb) (by simp) (by simp) (by simp)
  | addPeer b key w => cases hd.isFixed
  | removePeer b key => cases hd.isFixed
  | drop place i => cases hd.isFixed

end Mesh

end ZmqPubSub
