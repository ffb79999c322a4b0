import ZmqPubSub.ConnectionManager
import ZmqPubSub.MeshLinks
import ZmqPubSub.TopicMatching

/-!
Whatever a broker of the mesh sends to a client, it made itself (a RESET, an acknowledgement, its
statistics) or a client wrote it: payload, keys and topics reach the subscribers as they were
written, with the identity that the writer's own broker gave the message. Links may come and go and
lose, delay and repeat messages.
-/

namespace ZmqPubSub

open Containers TransitionSystem

namespace Broker

variable {ω : Type*} {pb : Protobuf} {b b' : Broker ω}

theorem stamped_congr (h : b'.brokerId = b.brokerId) (fresh : Uuid) (env : Envelope) :
    b'.stamped fresh env = b.stamped fresh env := by
  rw [stamped, stamped, stamp_congr h]

theorem stamped_topics (fresh : Uuid) (env : Envelope) :
    (b.stamped fresh env).header.topic = env.header.topic ∧
      (b.stamped fresh env).header.replyTopic = env.header.replyTopic := by
  unfold stamped stamp
  dsimp only
  split_ifs <;> exact ⟨rfl, rfl⟩

theorem route_brokerId (header : MessageHeader) (payload : Bytes) (senderId : String)
    (isFromPeer : Bool) :
    (b.route pb header payload senderId isFromPeer).1.brokerId = b.brokerId := by
  rw [route_fst]

theorem processMessage_brokerId (fresh : Uuid) (now : Time) (env : Envelope) (senderId : String)
    (isFromPeer : Bool) :
    (b.processMessage pb fresh now env senderId isFromPeer).1.brokerId = b.brokerId := by
  unfold processMessage processLocal
  dsimp only
  split_ifs <;> first | rfl | exact route_brokerId _ _ _ _

theorem step_brokerId (e : Event ω) : (b.step pb e).1.brokerId = b.brokerId := by
  cases e with
  | fromRouter fresh now env identity => exact processMessage_brokerId fresh now env identity false
  | fromPeer fresh now env => exact processMessage_brokerId fresh now env "PEER" true
  | sweep now => rw [step, sweep_frame]
  | broadcastStats now => rfl
  | addPeer key peer => rw [step, addPeer_frame]
  | removePeer key => rfl

theorem recv_answer {effects : List (Effect ω)} {c : String} {env : Envelope}
    (hsends : ∀ x ∈ Effect.clientSends effects, ∃ header : MessageHeader,
      (header = resetMsg ∨ header = ackMsg) ∧ x.2 = (Wire.encodeHeader pb header, []))
    (henv : env ∈ Effect.delivered pb c effects) :
    env = ⟨resetMsg, []⟩ ∨ env = ⟨ackMsg, []⟩ := by
  obtain ⟨x, hx, hr⟩ := List.mem_filterMap.mp henv
  obtain ⟨header, hh, he⟩ := hsends x (List.mem_of_mem_filter hx)
  rw [he, Wire.recv_sendFrames, Option.some.injEq] at hr
  rcases hh with rfl | rfl
  · exact .inl hr.symm
  · exact .inr hr.symm

/-- A message that is not routed is at most answered. -/
theorem delivered_of_not_routes {fresh : Uuid} {now : Time} {env : Envelope} {senderId c : String}
    {isFromPeer : Bool} (hr : ¬ b.Routes env.key senderId isFromPeer) {out : Envelope}
    (hout : out ∈ Effect.delivered pb c (b.processMessage pb fresh now env senderId isFromPeer).2) :
    out = ⟨resetMsg, []⟩ ∨ out = ⟨ackMsg, []⟩ := by
  refine recv_answer (fun x hx => ?_) hout
  obtain ⟨header, hh, rfl⟩ := (processMessage_quiet hr).2.2.2 x hx
  exact ⟨header, hh, rfl⟩

/-- What goes out to a client: the message that is routed, an answer to the sender, or statistics
for those who asked for them. -/
theorem delivered_cases (h : b.WellFormed) (e : Event ω) {c : String} {env : Envelope}
    (henv : env ∈ Effect.delivered pb c (b.step pb e).2) :
    (∃ sender, e.Brings b sender env) ∨ env = ⟨resetMsg, []⟩ ∨ env = ⟨ackMsg, []⟩ ∨
      (env.header = statsMsg ∧ b.Subscribed c Keys.sysStats) := by
  cases @step_activation ω pb b h e with
  | duplicate sender env' _ _ _ he =>
    rw [he] at henv
    cases henv
  | new sender env' ids hr =>
    rw [hr.effects_eq, Effect.delivered_routing hr.nodup] at henv
    split_ifs at henv
    · rw [List.mem_singleton.mp henv]
      exact .inl ⟨sender, hr.brings⟩
    · cases henv
  | quiet hbrings =>
    refine .inr ?_
    cases e with
    | fromRouter fresh now msg identity =>
      obtain ⟨b₀, he, hc, -⟩ := @processFromRouter_eq ω pb b fresh now msg identity
      have hr : ¬ b₀.Routes msg.key identity false := by
        rw [Routes, hc]
        exact fun hr => hbrings _ _ (.fromRouter fresh now msg identity hr)
      rw [step, he] at henv
      exact (delivered_of_not_routes hr henv).imp_right .inl
    | fromPeer fresh now msg =>
      have hr : ¬ b.Routes msg.key "PEER" true := fun hr =>
        hbrings _ _ (.fromPeer fresh now msg hr)
      rw [step, processFromPeer] at henv
      exact (delivered_of_not_routes hr henv).imp_right .inl
    | broadcastStats now =>
      obtain ⟨⟨id, headerBytes, payload⟩, hx, hr⟩ := List.mem_filterMap.mp henv
      obtain ⟨hsend, hid⟩ := List.mem_filter.mp hx
      obtain rfl : id = c := eq_of_beq hid
      rw [Effect.mem_clientSends] at hsend
      simp only [step, broadcastStats, List.mem_cons, reduceCtorEq, List.mem_map,
        Effect.sendToClient.injEq, false_or] at hsend
      obtain ⟨_, hsub, rfl, rfl, -⟩ := hsend
      rw [Wire.recv_sendFrames, Option.some.injEq] at hr
      exact .inr (.inr ⟨hr ▸ rfl, h.subscribed_iff.mpr hsub⟩)
    | sweep now => cases henv
    | addPeer key peer => cases henv
    | removePeer key => cases henv

theorem peerSends_cases (h : b.WellFormed) (e : Event ω) {x : ω × Envelope}
    (hx : x ∈ Effect.peerSends (b.step pb e).2) : ∃ sender, e.Brings b sender x.2 := by
  cases @step_activation ω pb b h e with
  | quiet _ _ _ hfloods =>
    rw [hfloods] at hx
    cases hx
  | duplicate sender env _ _ _ he =>
    rw [he] at hx
    cases hx
  | new sender env ids hr =>
    rw [hr.effects_eq, Effect.peerSends_routing] at hx
    obtain ⟨peer, -, rfl⟩ := List.mem_map.mp hx
    exact ⟨sender, hr.brings⟩

end Broker

namespace Mesh

variable {ι ω κ : Type*}

/-- Clients send no RESET and no acknowledgement. -/
def Decent (_ : Mesh ι ω κ) : Event ι ω κ → Prop
  | .send _ env => Keys.isControlMessage env.key = true → Broker.consumedLocally env.key = true
  | _ => True

instance (s : Mesh ι ω κ) : (e : Event ι ω κ) → Decidable (s.Decent e)
  | .send _ env => inferInstanceAs (Decidable (Keys.isControlMessage env.key = true → _))
  | .sendControl _ | .sendOutbound _ | .sendHeartbeat _ | .take _ _ _ | .recv _ | .takePeer _ _ _
  | .sweep _ _ | .broadcastStats _ _ | .addPeer _ _ _ | .removePeer _ _ | .drop _ _ =>
    instDecidableTrue

/-- A data message with the identity it got from the broker of the client that wrote it. -/
def Taken (s : Mesh ι ω κ) (env : Envelope) : Prop := ∃ k, ∃ x ∈ s.taken k, x.2 = env

/-- What may come up from a port. -/
def MayRise (N : Network ι ω κ) (s : Mesh ι ω κ) (env : Envelope) : ω ⊕ κ → Prop
  | .inl w => env = heartbeatEnvelope (N.identity (.inl w)) ∨ env = wildcard N w ∨ s.Taken env
  | .inr k => Broker.consumedLocally env.key = true ∨ env ∈ s.written k

variable {N : Network ι ω κ} {pb : Protobuf} {s s' : Mesh ι ω κ} {e : Event ι ω κ}

theorem taken_push [DecidableEq κ] {k : κ} {x : Envelope × Envelope} {env : Envelope}
    (h : s.Taken env) : Taken { s with taken := push s.taken k x } env := by
  obtain ⟨k', y, hy, he⟩ := h
  exact ⟨k', y, mem_push.mpr (.inl hy), he⟩

variable [DecidableEq ι]

structure Genuine (N : Network ι ω κ) (pb : Protobuf) (s : Mesh ι ω κ) : Prop where
  wellFormed : ∀ b, (s.broker b).WellFormed
  topics : ∀ w t, (s.far N w).Subscribed (N.identity (.inl w)) t → t = ""
  written : ∀ k, ∀ env ∈ s.written k, Keys.isControlMessage env.key = false
  taken : ∀ k, ∀ x ∈ s.taken k, x.1 ∈ s.written k ∧
    ∃ fresh, x.2 = (s.broker (N.home (.inr k))).stamped fresh x.1
  control : ∀ p, ∀ env ∈ s.control p, s.MayRise N env p
  outbound : ∀ p, ∀ env ∈ s.outbound p, s.MayRise N env p
  up : ∀ p, ∀ group ∈ s.up p, ∀ env, Wire.recv pb group = some env → s.MayRise N env p
  down : ∀ w, ∀ group ∈ s.down (.inl w), ∀ env, Wire.recv pb group = some env →
    s.Taken env ∨ env.key = Keys.reset ∨ env.key = Keys.heartbeatAck
  inbound : ∀ b, ∀ x ∈ s.inbound b, s.Taken x.2
  sent : ∀ b c, ∀ env ∈ s.deliveries pb b c, s.Taken env ∨ env = ⟨Broker.resetMsg, []⟩ ∨
    env = ⟨Broker.ackMsg, []⟩ ∨ env.header = Broker.statsMsg

theorem genuine_initial (h : s.Initial) : Genuine N pb s := by
  obtain ⟨hb, he⟩ := h
  refine ⟨fun b => Broker.wellFormed_initial (hb b), ?_, ?_, ?_, ?_, ?_, ?_, ?_, ?_, ?_⟩
  · intro w t ht
    obtain ⟨id, start, hi⟩ := hb (N.home (.inl w))
    rw [far, hi] at ht
    cases ht
  all_goals rw [he]; simp [deliveries, activations]

theorem Genuine.taken_key (h : Genuine N pb s) {env : Envelope} (ht : s.Taken env) :
    Keys.isControlMessage env.key = false ∧ env.uuid ≠ "" := by
  obtain ⟨k, x, hx, rfl⟩ := ht
  obtain ⟨hw, fresh, he⟩ := h.taken k x hx
  rw [he, Broker.stamped_key]
  exact ⟨h.written k _ hw, Broker.stamped_uuid_ne fresh _⟩

theorem Genuine.topics_of_others (h : Genuine N pb s) {b : ι} {ev : Broker.Event ω} {w : ω}
    (hw : N.home (.inl w) = b) (hs : ev.sender ≠ some (N.identity (.inl w))) (t : String)
    (ht : ((s.broker b).step pb ev).1.Subscribed (N.identity (.inl w)) t) : t = "" := by
  rcases @Broker.step_of_others ω pb _ (h.wellFormed b) ev _ hs with ⟨-, hsub⟩ | ⟨-, -, hnone⟩
  · refine h.topics w t ?_
    rw [far, hw]
    exact (hsub t).mp ht
  · exact absurd ht (hnone t)

theorem Genuine.record [DecidableEq κ] (h : Genuine N pb s) {k : κ} {env : Envelope} (fresh : Uuid)
    (henv : env ∈ s.written k) :
    Genuine N pb { s with
      taken := push s.taken k (env, (s.broker (N.home (.inr k))).stamped fresh env) } := by
  have hrise : ∀ {env' p}, s.MayRise N env' p → MayRise N { s with
      taken := push s.taken k (env, (s.broker (N.home (.inr k))).stamped fresh env) } env' p := by
    intro env' p hr
    cases p with
    | inl w => exact hr.imp_right (Or.imp_right taken_push)
    | inr k => exact hr
  refine ⟨h.wellFormed, h.topics, h.written, ?_, fun p env' hm => hrise (h.control p env' hm),
    fun p env' hm => hrise (h.outbound p env' hm),
    fun p group hg env' hr => hrise (h.up p group hg env' hr),
    fun w group hg env' hr => (h.down w group hg env' hr).imp_left taken_push,
    fun b x hx => taken_push (h.inbound b x hx),
    fun b c env' hm => (h.sent b c env' hm).imp_left taken_push⟩
  intro k' x hx
  rcases mem_push.mp hx with hx | ⟨rfl, rfl⟩
  · exact h.taken k' x hx
  · exact ⟨henv, fresh, rfl⟩

variable [DecidableEq ω]

/-- A broker makes a step: what it routes is a message that was taken from a client. -/
theorem Genuine.activate (h : Genuine N pb s) {b : ι} {ev : Broker.Event ω}
    (hb : ∀ sender env, ev.Brings (s.broker b) sender env → s.Taken env)
    (ht : ∀ w, N.home (.inl w) = b → ∀ t,
      ((s.broker b).step pb ev).1.Subscribed (N.identity (.inl w)) t → t = "") :
    Genuine N pb (s.activate N pb b ev) := by
  have hstamp : ∀ b' fresh env,
      ((s.activate N pb b ev).broker b').stamped fresh env = (s.broker b').stamped fresh env := by
    intro b' fresh env
    refine Broker.stamped_congr ?_ fresh env
    change (Function.update s.broker b _ b').brokerId = _
    rw [Function.update_apply]
    split_ifs with hb'
    · rw [hb']
      exact Broker.step_brokerId ev
    · rfl
  have hsent : ∀ c, ∀ env ∈ Effect.delivered pb c ((s.broker b).step pb ev).2, s.Taken env ∨
      env = ⟨Broker.resetMsg, []⟩ ∨ env = ⟨Broker.ackMsg, []⟩ ∨
        (env.header = Broker.statsMsg ∧ (s.broker b).Subscribed c Keys.sysStats) := by
    intro c env henv
    rcases Broker.delivered_cases (h.wellFormed b) ev henv with ⟨sender, hbr⟩ | hown
    · exact .inl (hb sender env hbr)
    · exact .inr hown
  refine ⟨fun b' => ?_, fun w t hsub => ?_, h.written, fun k x hx => ?_, h.control, ?_, h.up, ?_,
    h.inbound, ?_⟩
  · change (Function.update s.broker b _ b').WellFormed
    rw [Function.update_apply]
    split_ifs
    · exact (h.wellFormed b).step ev
    · exact h.wellFormed b'
  · rw [far_activate] at hsub
    split_ifs at hsub with hw
    · exact ht w hw t hsub
    · exact h.topics w t hsub
  · obtain ⟨hw, fresh, hx⟩ := h.taken k x hx
    exact ⟨hw, fresh, by rw [hstamp, hx]⟩
  · intro p env henv
    rcases List.mem_append.mp henv with henv | henv
    · exact h.outbound p env henv
    · cases p with
      | inl w =>
        obtain ⟨x, hx, rfl⟩ := List.mem_map.mp henv
        obtain ⟨sender, hbr⟩ :=
          Broker.peerSends_cases (h.wellFormed b) ev (List.mem_of_mem_filter hx)
        exact .inr (.inr (hb sender x.2 hbr))
      | inr k => cases henv
  · intro w group hg env hr
    rcases List.mem_append.mp hg with hg | hg
    · exact h.down w group hg env hr
    · have hadded : env ∈ added N pb b ((s.broker b).step pb ev).2 (.down w) := by
        rw [← recv_sentTo]
        exact List.mem_filterMap.mpr ⟨group, hg, hr⟩
      unfold added at hadded
      dsimp only at hadded
      split_ifs at hadded with hw
      · rcases hsent _ env hadded with htaken | rfl | rfl | ⟨-, hsub⟩
        · exact .inl htaken
        · exact .inr (.inl rfl)
        · exact .inr (.inr rfl)
        · -- a link never asked for statistics
          have hstats := h.topics w Keys.sysStats (by rwa [far, hw])
          exact absurd hstats (by decide)
      · cases hadded
  · intro b' c env henv
    rw [deliveries_activate] at henv
    rcases List.mem_append.mp henv with henv | henv
    · exact h.sent b' c env henv
    · split_ifs at henv with hbb
      · rcases hsent c env henv with htaken | hreset | hack | ⟨hstats, -⟩
        · exact .inl htaken
        · exact .inr (.inl hreset)
        · exact .inr (.inr (.inl hack))
        · exact .inr (.inr (.inr hstats))
      · cases henv

theorem Genuine.activate_quiet (h : Genuine N pb s) {b : ι} {ev : Broker.Event ω}
    (hs : ev.sender = none) (hp : ∀ fresh now env, ev ≠ .fromPeer fresh now env) :
    Genuine N pb (s.activate N pb b ev) := by
  refine h.activate ?_ fun w hw t ht => h.topics_of_others hw (by simp [hs]) t ht
  intro sender env hb
  cases hb with
  | fromRouter => cases hs
  | fromPeer fresh now env => exact absurd rfl (hp fresh now env)

/-- The broker at the other end takes a message of a link. -/
theorem Genuine.take_link (h : Genuine N pb s) {w : ω} {fresh : Uuid} {now : Time} {env : Envelope}
    (henv : s.MayRise N env (.inl w)) :
    Genuine N pb (s.activate N pb (N.home (.inl w))
      (.fromRouter fresh now env (N.identity (.inl w)))) := by
  refine h.activate ?_ fun w' hw' t ht => ?_
  · intro sender env' hb
    cases hb with
    | fromRouter _ _ _ _ hr =>
      have hkey : Broker.consumedLocally env.key = false := (hr.resolve_left (by simp)).2.2
      rcases henv with rfl | rfl | htaken
      · cases hkey
      · cases hkey
      · rw [Broker.stamped_of_ne (h.taken_key htaken).2]
        exact htaken
  · by_cases hww : w' = w
    · subst hww
      rcases @Broker.processFromRouter_own ω pb _ (h.wellFormed (N.home (.inl w'))) fresh now env
        (N.identity (.inl w')) with ⟨-, -, hnone⟩ | ⟨-, hsub, -⟩ | ⟨-, -, hsub⟩
      · exact absurd ht (hnone t)
      · exact h.topics w' t ((hsub t).mp ht)
      · rcases (hsub t).mp ht with ⟨hkey, rfl⟩ | ⟨hheld, -⟩
        · rcases henv with rfl | rfl | htaken
          · exact absurd hkey (by change Keys.heartbeat ≠ Keys.subscribe; decide)
          · rfl
          · have hno := (h.taken_key htaken).1
            rw [hkey] at hno
            cases hno
        · exact h.topics w' t hheld
    · refine h.topics_of_others hw' (fun hid => hww ?_) t ht
      exact Sum.inl_injective (N.identity_inj _ _ hw' (Option.some.inj hid).symm)

theorem Genuine.take_peer (h : Genuine N pb s) {b : ι} {fresh : Uuid} {now : Time} {env : Envelope}
    (henv : s.Taken env) : Genuine N pb (s.activate N pb b (.fromPeer fresh now env)) := by
  refine h.activate ?_ fun w hw t ht =>
    h.topics_of_others hw (by simp [Broker.Event.sender]) t ht
  intro sender env' hb
  cases hb with
  | fromPeer =>
    rw [Broker.stamped_of_ne (h.taken_key henv).2]
    exact henv

variable [DecidableEq κ]

theorem Genuine.push_up (h : Genuine N pb s) {p : ω ⊕ κ} {env : Envelope}
    (henv : s.MayRise N env p) :
    Genuine N pb { s with up := push s.up p (Wire.send pb env) } := by
  obtain ⟨h1, h2, h3, h4, h5, h6, h7, h8, h9, h10⟩ := h
  refine ⟨h1, h2, h3, h4, h5, h6, fun q group hg env' hr => ?_, h8, h9, h10⟩
  rcases mem_push.mp hg with hg | ⟨rfl, rfl⟩
  · exact h7 q group hg env' hr
  · rw [Wire.recv_send, Option.some.injEq] at hr
    exact hr ▸ henv

theorem Genuine.pop_up (h : Genuine N pb s) {p : ω ⊕ κ} {group : Wire.Group}
    {rest : List Wire.Group} (hu : s.up p = group :: rest) :
    Genuine N pb { s with up := Function.update s.up p rest } := by
  obtain ⟨h1, h2, h3, h4, h5, h6, h7, h8, h9, h10⟩ := h
  exact ⟨h1, h2, h3, h4, h5, h6, fun q g hg => h7 q g (mem_of_mem_pop hu hg), h8, h9, h10⟩

theorem Genuine.pop_down (h : Genuine N pb s) {p : ω ⊕ κ} {group : Wire.Group}
    {rest : List Wire.Group} (hd : s.down p = group :: rest) :
    Genuine N pb { s with down := Function.update s.down p rest } := by
  obtain ⟨h1, h2, h3, h4, h5, h6, h7, h8, h9, h10⟩ := h
  exact ⟨h1, h2, h3, h4, h5, h6, h7, fun w g hg => h8 w g (mem_of_mem_pop hd hg), h9, h10⟩

theorem Genuine.take_client (h : Genuine N pb s) {k : κ} {fresh : Uuid} {now : Time}
    {env : Envelope} (henv : s.MayRise N env (.inr k)) :
    Genuine N pb
      ((s.recordTaken (.inr k) env ((s.broker (N.home (.inr k))).stamped fresh env)).activate N pb
        (N.home (.inr k)) (.fromRouter fresh now env (N.identity (.inr k)))) := by
  have hother : ∀ w : ω, N.home (.inl w) = N.home (.inr k) →
      (Broker.Event.fromRouter fresh now env (N.identity (.inr k)) : Broker.Event ω).sender ≠
        some (N.identity (.inl w)) := by
    intro w hw hid
    cases N.identity_inj _ _ hw (Option.some.inj hid).symm
  rw [recordTaken_inr]
  split_ifs with hcontrol
  · -- a control message is not routed
    refine h.activate ?_ fun w hw t ht => h.topics_of_others hw (hother w hw) t ht
    intro sender env' hb
    cases hb with
    | fromRouter _ _ _ _ hr =>
      have hkey : Broker.consumedLocally env.key = false := (hr.resolve_left (by simp)).2.2
      rcases henv with hconsumed | hwritten
      · rw [hkey] at hconsumed
        cases hconsumed
      · rw [h.written k env hwritten] at hcontrol
        cases hcontrol
  · have hwritten : env ∈ s.written k := by
      refine henv.resolve_left fun hconsumed => ?_
      rw [Broker.consumedLocally_of_data (Bool.eq_false_iff.mpr hcontrol)] at hconsumed
      cases hconsumed
    have hrecord := h.record fresh hwritten
    refine hrecord.activate ?_ fun w hw t ht => hrecord.topics_of_others hw (hother w hw) t ht
    intro sender env' hb
    cases hb with
    | fromRouter => exact ⟨k, _, mem_push.mpr (.inr ⟨rfl, rfl⟩), rfl⟩

/-- A link reads what comes down. -/
theorem Genuine.recv (h : Genuine N pb s) {w : ω} {env : Envelope}
    (henv : s.Taken env ∨ env.key = Keys.reset ∨ env.key = Keys.heartbeatAck) :
    Genuine N pb (s.linkReceives N w env) := by
  obtain ⟨h1, h2, h3, h4, h5, h6, h7, h8, h9, h10⟩ := h
  unfold linkReceives
  dsimp only
  split_ifs with hack hreset
  · exact ⟨h1, h2, h3, h4, h5, h6, h7, h8, h9, h10⟩
  · refine ⟨h1, h2, h3, h4, fun p env' hm => ?_, h6, h7, h8, h9, h10⟩
    rcases mem_push.mp hm with hm | ⟨rfl, rfl⟩
    · exact h5 p env' hm
    · exact .inr (.inl rfl)
  · refine ⟨h1, h2, h3, h4, h5, h6, h7, h8, fun b x hx => ?_, h10⟩
    rcases mem_push.mp hx with hx | ⟨-, rfl⟩
    · exact h9 b x hx
    · exact henv.resolve_right (not_or_intro hreset hack)

theorem Genuine.lose (h : Genuine N pb s) (place : Place ι ω κ) (i : ℕ) :
    Genuine N pb (s.lose place i) := by
  obtain ⟨h1, h2, h3, h4, h5, h6, h7, h8, h9, h10⟩ := h
  cases place with
  | control p =>
    exact ⟨h1, h2, h3, h4, fun q env hm => h5 q env (mem_of_mem_lose hm), h6, h7, h8, h9, h10⟩
  | outbound p =>
    exact ⟨h1, h2, h3, h4, h5, fun q env hm => h6 q env (mem_of_mem_lose hm), h7, h8, h9, h10⟩
  | up p => exact ⟨h1, h2, h3, h4, h5, h6, fun q g hg => h7 q g (mem_of_mem_lose hg), h8, h9, h10⟩
  | down p => exact ⟨h1, h2, h3, h4, h5, h6, h7, fun w g hg => h8 w g (mem_of_mem_lose hg), h9, h10⟩
  | inbound b =>
    exact ⟨h1, h2, h3, h4, h5, h6, h7, h8, fun b' x hx => h9 b' x (mem_of_mem_lose hx), h10⟩

theorem Genuine.send (h : Genuine N pb s) {k : κ} {env : Envelope}
    (hdata : ¬ Keys.isControlMessage env.key = true) :
    Genuine N pb { s with
      outbound := push s.outbound (.inr k) env, written := push s.written k env } := by
  have hrise : ∀ {env' p}, s.MayRise N env' p → MayRise N { s with
      outbound := push s.outbound (.inr k) env, written := push s.written k env } env' p := by
    intro env' p hr
    cases p with
    | inl w => exact hr
    | inr k' => exact hr.imp_right fun hw => mem_push.mpr (.inl hw)
  obtain ⟨h1, h2, h3, h4, h5, h6, h7, h8, h9, h10⟩ := h
  refine ⟨h1, h2, fun k' env' hm => ?_, fun k' x hx => ?_, fun p env' hm => hrise (h5 p env' hm),
    fun p env' hm => ?_, fun p g hg env' hr => hrise (h7 p g hg env' hr), h8, h9, h10⟩
  · rcases mem_push.mp hm with hm | ⟨-, rfl⟩
    · exact h3 k' env' hm
    · exact Bool.eq_false_iff.mpr hdata
  · obtain ⟨hw, hst⟩ := h4 k' x hx
    exact ⟨mem_push.mpr (.inl hw), hst⟩
  · rcases mem_push.mp hm with hm | ⟨rfl, rfl⟩
    · exact hrise (h6 p env' hm)
    · exact .inr (mem_push.mpr (.inr ⟨rfl, rfl⟩))

theorem Genuine.step (h : Genuine N pb s) (hdecent : s.Decent e)
    (he : s.step N pb e = some s') : Genuine N pb s' := by
  cases step_acts he with
  | @sendKey k env hk =>
    obtain ⟨h1, h2, h3, h4, h5, h6, h7, h8, h9, h10⟩ := h
    refine ⟨h1, h2, h3, h4, fun p env' hm => ?_, h6, h7, h8, h9, h10⟩
    dsimp only at hm
    rcases mem_push.mp hm with hm | ⟨rfl, rfl⟩
    · exact h5 p env' hm
    · exact .inl (hdecent hk)
  | sendData hk => exact h.send hk
  | @sendControl p env rest hc =>
    obtain ⟨h1, h2, h3, h4, h5, h6, h7, h8, h9, h10⟩ :=
      h.push_up (h.control p env (hc ▸ List.mem_cons_self))
    exact ⟨h1, h2, h3, h4, fun q env' hm => h5 q env' (mem_of_mem_pop hc hm), h6, h7, h8, h9, h10⟩
  | @sendOutbound p env rest hc =>
    obtain ⟨h1, h2, h3, h4, h5, h6, h7, h8, h9, h10⟩ :=
      h.push_up (h.outbound p env (hc ▸ List.mem_cons_self))
    exact ⟨h1, h2, h3, h4, h5, fun q env' hm => h6 q env' (mem_of_mem_pop hc hm), h7, h8, h9, h10⟩
  | sendHeartbeat p =>
    refine h.push_up ?_
    cases p with
    | inl w => exact .inl rfl
    | inr k => exact .inl rfl
  | takeNothing hu hr => exact h.pop_up hu
  | @take p fresh now group rest env hu hr =>
    have henv := h.up p group (hu ▸ List.mem_cons_self) env hr
    cases p with
    | inl w => exact (h.pop_up hu).take_link henv
    | inr k => exact (h.pop_up hu).take_client henv
  | recvNothing hd hr => exact h.pop_down hd
  | @recv w group rest env hd hr =>
    exact (h.pop_down hd).recv (h.down w group (hd ▸ List.mem_cons_self) env hr)
  | @takePeer b fresh now w env rest hin =>
    have henv := h.inbound b (w, env) (hin ▸ List.mem_cons_self)
    obtain ⟨h1, h2, h3, h4, h5, h6, h7, h8, h9, h10⟩ := h
    refine Genuine.take_peer (s := { s with inbound := _ }) ?_ henv
    exact ⟨h1, h2, h3, h4, h5, h6, h7, h8, fun b x hx => h9 b x (mem_of_mem_pop hin hx), h10⟩
  | sweep b now => exact h.activate_quiet rfl (by simp)
  | broadcastStats b now => exact h.activate_quiet rfl (by simp)
  | addPeer key hw => exact h.activate_quiet rfl (by simp)
  | removePeer b key => exact h.activate_quiet rfl (by simp)
  | drop place i => exact h.lose place i

theorem genuine_of_run (h : Reachable Initial (guarded Decent (ofFun (Mesh.step N pb))) s) :
    Genuine N pb s :=
  h.invariant (P := Genuine N pb) (fun _ h₀ => genuine_initial h₀) fun _ _ _ ht hs =>
    ht.step hs.1 hs.2

/-- Whatever is sent to a client is a message of the broker's own, or one that a client wrote, as it
was written, with the identity it got at its own broker. -/
theorem delivered_was_written
    (h : Reachable Initial (guarded Decent (ofFun (Mesh.step N pb))) s) {b : ι} {c : String}
    {env : Envelope} (henv : env ∈ s.deliveries pb b c) :
    env = ⟨Broker.resetMsg, []⟩ ∨ env = ⟨Broker.ackMsg, []⟩ ∨ env.header = Broker.statsMsg ∨
      ∃ k, ∃ msg ∈ s.written k, ∃ fresh, env = (s.broker (N.home (.inr k))).stamped fresh msg := by
  have hg := genuine_of_run h
  rcases hg.sent b c env henv with ⟨k, x, hx, rfl⟩ | hreset | hack | hstats
  · obtain ⟨hw, fresh, hst⟩ := hg.taken k x hx
    exact .inr (.inr (.inr ⟨k, x.1, hw, fresh, hst⟩))
  · exact .inl hreset
  · exact .inr (.inl hack)
  · exact .inr (.inr (.inl hstats))

theorem delivered_was_written_news :
    ∃ env ∈ published.deliveries BrokerProto.proto3 true "client-b",
    env.payload = [1, 2] ∧ ∃ k, ∃ msg ∈ published.written k, ∃ fresh,
      env = (published.broker (mutualDial.home (.inr k))).stamped fresh msg := by
  have hr : Run (guarded Decent (ofFun (Mesh.step mutualDial BrokerProto.proto3))) started
      (trace (Mesh.step mutualDial BrokerProto.proto3) started
        (linking false ++ linking true ++ joining ++ publishing)) published :=
    exec_guarded (by decide +kernel) (by simp [published])
  have hi : started.Initial := ⟨fun b => ⟨_, 0, rfl⟩, rfl⟩
  obtain ⟨env, henv, hpayload, hkey⟩ :
      ∃ env ∈ published.deliveries BrokerProto.proto3 true "client-b",
        env.payload = [1, 2] ∧ env.key = "news" := by decide +kernel
  refine ⟨env, henv, hpayload, ?_⟩
  rcases delivered_was_written ⟨started, _, hi, hr⟩ henv with rfl | rfl | hstats | hwritten
  · cases hpayload
  · cases hpayload
  · rw [Envelope.key, hstats] at hkey
    exact absurd hkey (by decide)
  · exact hwritten

/-- A call of `sendRequest` of a client. -/
structure Request (κ : Type*) where
  client : κ
  topic : String
  uuid : Uuid
  payload : Bytes

namespace Request

def replyTopic (r : Request κ) : String := r.topic ++ r.uuid.val

def envelope (N : Network ι ω κ) (r : Request κ) : Envelope :=
  ({ clientId := N.identity (.inr r.client) } : ConnectionManager Unit).requestEnvelope r.topic
    r.replyTopic r.payload

theorem length_replyTopic {κ : Type*} (r : Request κ) : 36 ≤ r.replyTopic.length := by
  rw [replyTopic, String.length_append, r.uuid.property]
  omega

end Request

/-- Nobody but the request has its reply topic, and under that topic a client sends data only if a
message that asks for it was delivered to the client. -/
def Correlated (N : Network ι ω κ) (pb : Protobuf) (r : Request κ) (s : Mesh ι ω κ) :
    Event ι ω κ → Prop
  | .send k env =>
    (env.header.replyTopic = r.replyTopic → k = r.client ∧ env = r.envelope N) ∧
    (Keys.isControlMessage env.key = false → env.header.topic = r.replyTopic →
      ∃ inbound ∈ s.deliveries pb (N.home (.inr k)) (N.identity (.inr k)),
        inbound.header.replyTopic = r.replyTopic)
  | _ => True

instance (N : Network ι ω κ) (pb : Protobuf) (r : Request κ) (s : Mesh ι ω κ) :
    (e : Event ι ω κ) → Decidable (s.Correlated N pb r e)
  | .send _ _ => inferInstanceAs (Decidable (_ ∧ _))
  | .sendControl _ | .sendOutbound _ | .sendHeartbeat _ | .take _ _ _ | .recv _ | .takePeer _ _ _
  | .sweep _ _ | .broadcastStats _ _ | .addPeer _ _ _ | .removePeer _ _ | .drop _ _ =>
    instDecidableTrue

/-- What clients wrote, against what they were sent before. -/
def Answering (N : Network ι ω κ) (pb : Protobuf) (r : Request κ) (s : Mesh ι ω κ) : Prop :=
  ∀ k, ∀ env ∈ s.written k,
    (env.header.replyTopic = r.replyTopic → k = r.client ∧ env = r.envelope N) ∧
    (env.header.topic = r.replyTopic →
      ∃ inbound ∈ s.deliveries pb (N.home (.inr k)) (N.identity (.inr k)),
        inbound.header.replyTopic = r.replyTopic)

theorem deliveries_subset (he : s.step N pb e = some s') (b : ι) (c : String) :
    s.deliveries pb b c ⊆ s'.deliveries pb b c := by
  unfold deliveries
  rcases step_broker he with ⟨-, hl⟩ | ⟨b', ev, -, hl⟩
  · simp only [activations, hl]
    exact List.Subset.refl _
  · rw [activations_snoc hl, List.flatMap_append]
    exact List.subset_append_left _ _

theorem written_step (he : s.step N pb e = some s') :
    s'.written = s.written ∨ ∃ k env, e = .send k env ∧ Keys.isControlMessage env.key = false ∧
      s'.written = push s.written k env := by
  cases step_acts he with
  | @sendData k env hk => exact .inr ⟨k, env, rfl, Bool.eq_false_iff.mpr hk, rfl⟩
  | @take p =>
    left
    cases p with
    | inl w => rfl
    | inr k =>
      rw [recordTaken_inr]
      rfl
  | recv =>
    left
    unfold linkReceives
    dsimp only
    split_ifs <;> rfl
  | drop place =>
    left
    cases place <;> rfl
  | _ => exact .inl rfl

theorem Answering.step {r : Request κ} (h : s.Answering N pb r) (hc : s.Correlated N pb r e)
    (he : s.step N pb e = some s') : s'.Answering N pb r := by
  have hsub := deliveries_subset he
  intro k env henv
  rcases written_step he with hw | ⟨k', env', rfl, hdata, hw⟩
  · obtain ⟨hfresh, hreply⟩ := h k env (hw ▸ henv)
    refine ⟨hfresh, fun ht => ?_⟩
    obtain ⟨inbound, hin, hrt⟩ := hreply ht
    exact ⟨inbound, hsub _ _ hin, hrt⟩
  · rw [hw] at henv
    rcases mem_push.mp henv with henv | ⟨rfl, rfl⟩
    · obtain ⟨hfresh, hreply⟩ := h k env henv
      refine ⟨hfresh, fun ht => ?_⟩
      obtain ⟨inbound, hin, hrt⟩ := hreply ht
      exact ⟨inbound, hsub _ _ hin, hrt⟩
    · refine ⟨hc.1, fun ht => ?_⟩
      obtain ⟨inbound, hin, hrt⟩ := hc.2 hdata ht
      exact ⟨inbound, hsub _ _ hin, hrt⟩

theorem answering_of_run {r : Request κ}
    (h : Reachable Initial (guarded (Correlated N pb r) (ofFun (Mesh.step N pb))) s) :
    s.Answering N pb r := by
  refine h.invariant (P := Answering N pb r) ?_ fun _ _ _ ht hs => ht.step hs.1 hs.2
  intro s₀ h₀ k env henv
  rw [h₀.2] at henv
  cases henv

/-- Whatever is delivered under the reply topic of a request was written by a client to which that
request was delivered as it was sent. -/
theorem response_answers_request {r : Request κ}
    (h : Reachable Initial
      (guarded (fun s e => s.Decent e ∧ s.Correlated N pb r e) (ofFun (Mesh.step N pb))) s)
    {b : ι} {c : String} {env : Envelope} (henv : env ∈ s.deliveries pb b c)
    (htopic : env.header.topic = r.replyTopic) :
    r.envelope N ∈ s.written r.client ∧
    ∃ k, ∃ reply ∈ s.written k,
      (∃ fresh, env = (s.broker (N.home (.inr k))).stamped fresh reply) ∧
      ∃ fresh, (s.broker (N.home (.inr r.client))).stamped fresh (r.envelope N) ∈
        s.deliveries pb (N.home (.inr k)) (N.identity (.inr k)) := by
  obtain ⟨s₀, tr, h₀, hr⟩ := h
  have hg : Genuine N pb s := genuine_of_run ⟨s₀, tr, h₀, hr.mono fun _ _ _ hs => ⟨hs.1.1, hs.2⟩⟩
  have ha : s.Answering N pb r :=
    answering_of_run ⟨s₀, tr, h₀, hr.mono fun _ _ _ hs => ⟨hs.1.2, hs.2⟩⟩
  have hlong := r.length_replyTopic
  -- the brokers' own messages are not under a reply topic and ask for no reply
  have hwritten : ∀ {b c env}, env ∈ s.deliveries pb b c →
      env.header.topic = r.replyTopic ∨ env.header.replyTopic = r.replyTopic →
      ∃ k, ∃ msg ∈ s.written k, ∃ fresh, env = (s.broker (N.home (.inr k))).stamped fresh msg := by
    intro b c env henv hrt
    rcases hg.sent b c env henv with ⟨k, x, hx, rfl⟩ | rfl | rfl | hstats
    · obtain ⟨hw, fresh, hst⟩ := hg.taken k x hx
      exact ⟨k, x.1, hw, fresh, hst⟩
    · rcases hrt with hrt | hrt <;> rw [← hrt] at hlong <;> cases hlong
    · rcases hrt with hrt | hrt <;> rw [← hrt] at hlong <;> cases hlong
    · rw [hstats] at hrt
      rcases hrt with hrt | hrt <;> rw [← hrt] at hlong <;> exact absurd hlong (by decide)
  obtain ⟨k, reply, hreply, fresh, rfl⟩ := hwritten henv (.inl htopic)
  rw [(Broker.stamped_topics fresh reply).1] at htopic
  obtain ⟨inbound, hin, hrt⟩ := (ha k reply hreply).2 htopic
  obtain ⟨k', msg, hmsg, fresh', rfl⟩ := hwritten hin (.inr hrt)
  rw [(Broker.stamped_topics fresh' msg).2] at hrt
  obtain ⟨rfl, rfl⟩ := (ha k' msg hmsg).1 hrt
  exact ⟨hmsg, k, reply, hreply, ⟨fresh, rfl⟩, fresh', hin⟩

def askUuid : Uuid := ⟨"00000000-0000-4000-8000-000000000016", by decide⟩
def askedUuid : Uuid := ⟨"00000000-0000-4000-8000-000000000017", by decide⟩
def answeredUuid : Uuid := ⟨"00000000-0000-4000-8000-000000000018", by decide⟩

/-- The first client asks the second one, over the first link. -/
def question : Request Bool := ⟨false, "news", askUuid, [1]⟩

def requesting : List (Event Bool Bool Bool) :=
  [.send false (createControlEnvelope Keys.subscribe "client-a" question.replyTopic),
    .sendControl (.inr false), .take (.inr false) newsUuid 0,
    .send false (question.envelope mutualDial), .sendOutbound (.inr false),
    .take (.inr false) askedUuid 0, .sendOutbound (.inl false), .take (.inl false) newsUuid 0]

/-- The answer comes back over the same link. -/
def replying : List (Event Bool Bool Bool) :=
  [.send true (({ clientId := "client-b" } : ConnectionManager Unit).dataEnvelope
      question.replyTopic [2]),
    .sendOutbound (.inr true), .take (.inr true) answeredUuid 0, .recv (.inl false),
    .takePeer false newsUuid 0]

def conversing : List (Event Bool Bool Bool) :=
  linking false ++ linking true ++ joining ++ requesting ++ replying

def answered : Mesh Bool Bool Bool :=
  (exec (Mesh.step mutualDial BrokerProto.proto3) started conversing).get (by decide +kernel)

theorem response_answers_request_answered :
    ∃ env ∈ answered.deliveries BrokerProto.proto3 false "client-a", env.payload = [2] ∧
      ∃ k, ∃ fresh, (answered.broker (mutualDial.home (.inr question.client))).stamped fresh
        (question.envelope mutualDial) ∈ answered.deliveries BrokerProto.proto3
          (mutualDial.home (.inr k)) (mutualDial.identity (.inr k)) := by
  have hr : Run (guarded (fun s e => s.Decent e ∧
      s.Correlated mutualDial BrokerProto.proto3 question e)
        (ofFun (Mesh.step mutualDial BrokerProto.proto3))) started
      (trace (Mesh.step mutualDial BrokerProto.proto3) started conversing) answered :=
    exec_guarded (by decide +kernel) (by simp [answered])
  have hi : started.Initial := ⟨fun b => ⟨_, 0, rfl⟩, rfl⟩
  obtain ⟨env, henv, hpayload, htopic⟩ :
      ∃ env ∈ answered.deliveries BrokerProto.proto3 false "client-a",
        env.payload = [2] ∧ env.header.topic = question.replyTopic := by decide +kernel
  obtain ⟨-, k, _, _, -, fresh, hin⟩ :=
    response_answers_request ⟨started, _, hi, hr⟩ henv htopic
  exact ⟨env, henv, hpayload, k, fresh, hin⟩

end Mesh

end ZmqPubSub
