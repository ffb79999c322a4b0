import ZmqPubSub.MeshFlooding

/-!
A link introduces itself with whatever it sends first; the broker at its other end answers with a
RESET, and the link asks for every topic. As long as nothing is lost, a link that is known to the
broker at its other end has its wildcard subscription or is about to get it, whatever sweeps, other
clients and other links do in between.
-/

namespace ZmqPubSub.Mesh

open Containers TransitionSystem

variable {ι ω κ : Type*}

/-- The subscription that the message callback of a link sends. -/
def wildcard (N : Network ι ω κ) (w : ω) : Envelope :=
  createControlEnvelope Keys.subscribe (N.identity (.inl w)) ""

/-- A link never unsubscribes and never disconnects. -/
def FromLink (N : Network ι ω κ) (w : ω) (env : Envelope) : Prop :=
  Broker.consumedLocally env.key = false ∨ env = heartbeatEnvelope (N.identity (.inl w)) ∨
    env = wildcard N w

structure Tidy (N : Network ι ω κ) (pb : Protobuf) (s : Mesh ι ω κ) : Prop where
  wellFormed : ∀ b, (s.broker b).WellFormed
  outbound : ∀ w, ∀ env ∈ s.outbound (.inl w), Broker.consumedLocally env.key = false
  control : ∀ w, ∀ env ∈ s.control (.inl w), env = wildcard N w
  up : ∀ w, ∀ group ∈ s.up (.inl w), ∃ env, Wire.recv pb group = some env ∧ FromLink N w env
  down : ∀ w, ∀ group ∈ s.down (.inl w), ∀ env, Wire.recv pb group = some env →
    Broker.consumedLocally env.key = false
  inbound : ∀ b, ∀ x ∈ s.inbound b, Broker.consumedLocally x.2.key = false

/-- A RESET is on its way down, or the answer to it on its way up. -/
def Owes (N : Network ι ω κ) (pb : Protobuf) (s : Mesh ι ω κ) (w : ω) : Prop :=
  (∃ group ∈ s.down (.inl w), ∃ env, Wire.recv pb group = some env ∧ env.key = Keys.reset) ∨
    wildcard N w ∈ s.control (.inl w) ∨
    ∃ group ∈ s.up (.inl w), Wire.recv pb group = some (wildcard N w)

def far (N : Network ι ω κ) (s : Mesh ι ω κ) (w : ω) : Broker ω := s.broker (N.home (.inl w))

def Subscribing (N : Network ι ω κ) (pb : Protobuf) (s : Mesh ι ω κ) (w : ω) : Prop :=
  N.identity (.inl w) ∈ (s.far N w).clients →
    (s.far N w).Subscribed (N.identity (.inl w)) "" ∨ s.Owes N pb w

/-- Nothing is lost. -/
def Lossless (_ : Mesh ι ω κ) (e : Event ι ω κ) : Prop := ∀ place i, e ≠ .drop place i

/-- The events of one link: its worker sends and reads, and the broker reads from it. -/
inductive Own (w : ω) (fresh : Uuid) (now : Time) : Mesh ι ω κ → Event ι ω κ → Prop
  | sendHeartbeat (s : Mesh ι ω κ) : Own w fresh now s (.sendHeartbeat (.inl w))
  | sendControl (s : Mesh ι ω κ) : Own w fresh now s (.sendControl (.inl w))
  | take (s : Mesh ι ω κ) : Own w fresh now s (.take (.inl w) fresh now)
  | recv (s : Mesh ι ω κ) : Own w fresh now s (.recv (.inl w))

variable {N : Network ι ω κ} {pb : Protobuf} {s s' : Mesh ι ω κ} {e : Event ι ω κ} {w : ω}
  {fresh : Uuid} {now : Time}

theorem tidy_initial (h : s.Initial) : Tidy N pb s := by
  obtain ⟨hb, he⟩ := h
  refine ⟨fun b => Broker.wellFormed_initial (hb b), ?_, ?_, ?_, ?_, ?_⟩ <;> rw [he] <;> simp

theorem Owes.mono (h : s.Owes N pb w) (hc : s.control (.inl w) ⊆ s'.control (.inl w))
    (hu : s.up (.inl w) ⊆ s'.up (.inl w)) (hd : s.down (.inl w) ⊆ s'.down (.inl w)) :
    s'.Owes N pb w := by
  rcases h with ⟨group, hg, hr⟩ | h | ⟨group, hg, hr⟩
  · exact .inl ⟨group, hd hg, hr⟩
  · exact .inr (.inl (hc h))
  · exact .inr (.inr ⟨group, hu hg, hr⟩)

theorem Subscribing.mono (h : s.Subscribing N pb w) (hb : s'.broker = s.broker)
    (hc : s.control (.inl w) ⊆ s'.control (.inl w)) (hu : s.up (.inl w) ⊆ s'.up (.inl w))
    (hd : s.down (.inl w) ⊆ s'.down (.inl w)) : s'.Subscribing N pb w := by
  intro hm
  rw [far, hb] at hm ⊢
  exact (h hm).imp id fun ho => ho.mono hc hu hd

theorem FromLink.key_ne {env : Envelope} (h : FromLink N w env) :
    env.key ≠ Keys.disconnect ∧ env.key ≠ Keys.unsubscribe := by
  rcases h with hk | rfl | rfl
  · simp only [Broker.consumedLocally, Bool.or_eq_false_iff, beq_eq_false_iff_ne] at hk
    exact ⟨hk.1.1.1.1, hk.2⟩
  · change Keys.heartbeat ≠ Keys.disconnect ∧ Keys.heartbeat ≠ Keys.unsubscribe
    decide
  · change Keys.subscribe ≠ Keys.disconnect ∧ Keys.subscribe ≠ Keys.unsubscribe
    decide

theorem Own.lossless (h : Own w fresh now s e) (place : Place ι ω κ) (i : ℕ) :
    e ≠ .drop place i := by
  cases h <;> simp

section

variable [DecidableEq ω] [DecidableEq κ]

theorem Tidy.pop_up (h : Tidy N pb s) {p : ω ⊕ κ} {group : Wire.Group} {rest : List Wire.Group}
    (hu : s.up p = group :: rest) : Tidy N pb { s with up := Function.update s.up p rest } :=
  ⟨h.wellFormed, h.outbound, h.control, fun w g hg => h.up w g (mem_of_mem_pop hu hg), h.down,
    h.inbound⟩

theorem Tidy.pop_down (h : Tidy N pb s) {p : ω ⊕ κ} {group : Wire.Group} {rest : List Wire.Group}
    (hd : s.down p = group :: rest) : Tidy N pb { s with down := Function.update s.down p rest } :=
  ⟨h.wellFormed, h.outbound, h.control, h.up, fun w g hg => h.down w g (mem_of_mem_pop hd hg),
    h.inbound⟩

theorem Tidy.push_up (h : Tidy N pb s) {p : ω ⊕ κ} {env : Envelope}
    (henv : ∀ w, (.inl w : ω ⊕ κ) = p → FromLink N w env) :
    Tidy N pb { s with up := push s.up p (Wire.send pb env) } := by
  refine ⟨h.wellFormed, h.outbound, h.control, ?_, h.down, h.inbound⟩
  intro w group hg
  rcases mem_push.mp hg with hg | ⟨hw, rfl⟩
  · exact h.up w group hg
  · exact ⟨env, Wire.recv_send pb env, henv w hw⟩

theorem Owes.pop_up (h : s.Owes N pb w) {p : ω ⊕ κ} {group : Wire.Group} {rest : List Wire.Group}
    (hu : s.up p = group :: rest)
    (hne : .inl w = p → Wire.recv pb group ≠ some (wildcard N w)) :
    Owes N pb { s with up := Function.update s.up p rest } w := by
  rcases h with h | h | ⟨g, hg, hr⟩
  · exact .inl h
  · exact .inr (.inl h)
  · exact .inr (.inr ⟨g, mem_pop_of_ne hu hg fun hp he => hne hp (he ▸ hr), hr⟩)

theorem Owes.pop_down (h : s.Owes N pb w) {p : ω ⊕ κ} {group : Wire.Group} {rest : List Wire.Group}
    (hd : s.down p = group :: rest)
    (hne : .inl w = p → ∀ env, Wire.recv pb group = some env → env.key ≠ Keys.reset) :
    Owes N pb { s with down := Function.update s.down p rest } w := by
  rcases h with ⟨g, hg, env, hr, hk⟩ | h
  · exact .inl ⟨g, mem_pop_of_ne hd hg fun hp he => hne hp env (he ▸ hr) hk, env, hr, hk⟩
  · exact .inr h

end

variable [DecidableEq ι] [DecidableEq ω]

theorem Tidy.activate (h : Tidy N pb s) {b : ι} {ev : Broker.Event ω}
    (hk : ∀ fresh now env, ev = .fromPeer fresh now env → Broker.consumedLocally env.key = false) :
    Tidy N pb (s.activate N pb b ev) := by
  have hbrings : ∀ sender env, ev.Brings (s.broker b) sender env →
      Broker.consumedLocally env.key = false := by
    intro sender env hb
    cases hb with
    | fromRouter _ _ _ _ hr =>
      rw [Broker.stamped_key]
      exact (hr.resolve_left (by simp)).2.2
    | fromPeer fresh now env =>
      rw [Broker.stamped_key]
      exact hk fresh now env rfl
  obtain ⟨hpeer, hclient⟩ := (@Broker.step_activation ω pb _ (h.wellFormed b) ev).keys hbrings
  refine ⟨fun b' => ?_, ?_, h.control, h.up, ?_, h.inbound⟩
  · change (Function.update s.broker b _ b').WellFormed
    rw [Function.update_apply]
    split_ifs
    · exact (h.wellFormed b).step ev
    · exact h.wellFormed b'
  · intro w env henv
    rcases List.mem_append.mp henv with henv | henv
    · exact h.outbound w env henv
    · obtain ⟨x, hx, rfl⟩ := List.mem_map.mp henv
      exact (hpeer x (List.mem_of_mem_filter hx)).2
  · intro w group hg env hr
    rcases List.mem_append.mp hg with hg | hg
    · exact h.down w group hg env hr
    · have hadded : env ∈ added N pb b ((s.broker b).step pb ev).2 (.down w) := by
        rw [← recv_sentTo]
        exact List.mem_filterMap.mpr ⟨group, hg, hr⟩
      unfold added at hadded
      dsimp only at hadded
      split_ifs at hadded
      · exact hclient _ env hadded
      · cases hadded

theorem far_activate (b : ι) (ev : Broker.Event ω) : (s.activate N pb b ev).far N w =
    if N.home (.inl w) = b then ((s.broker b).step pb ev).1 else s.far N w :=
  Function.update_apply _ _ _ _

/-- A step of another sender leaves entry and subscription, or a sweep takes both. -/
theorem Subscribing.activate (h : s.Subscribing N pb w) {b : ι} {ev : Broker.Event ω}
    (hw : (s.broker b).WellFormed)
    (hs : N.home (.inl w) = b → ev.sender ≠ some (N.identity (.inl w))) :
    (s.activate N pb b ev).Subscribing N pb w := by
  have hmono : s.Owes N pb w → (s.activate N pb b ev).Owes N pb w := fun ho =>
    ho.mono (List.Subset.refl _) (List.Subset.refl _) (List.subset_append_left _ _)
  unfold Subscribing
  rw [far_activate]
  split_ifs with hb
  · have hsame : s.far N w = s.broker b := congrArg s.broker hb
    rcases @Broker.step_of_others ω pb _ hw ev _ (hs hb) with ⟨hc, hsub⟩ | ⟨-, hc, -⟩
    · rw [hc, hsub, ← hsame]
      exact fun hm => (h hm).imp id hmono
    · exact fun hm => absurd hm hc
  · exact fun hm => (h hm).imp id hmono

variable [DecidableEq κ]

theorem Tidy.step (h : Tidy N pb s) (hlossless : ∀ place i, e ≠ .drop place i)
    (he : s.step N pb e = some s') : Tidy N pb s' := by
  have hnone : ∀ {b : ι} {ev : Broker.Event ω}, (∀ fresh now env, ev ≠ .fromPeer fresh now env) →
      Tidy N pb (s.activate N pb b ev) :=
    fun hne => h.activate fun _ _ _ he => absurd he (hne _ _ _)
  cases step_acts he with
  | sendKey =>
    refine ⟨h.wellFormed, h.outbound, ?_, h.up, h.down, h.inbound⟩
    intro w env' henv
    dsimp only at henv
    rcases mem_push.mp henv with henv | ⟨hw, -⟩
    · exact h.control w env' henv
    · cases hw
  | sendData =>
    refine ⟨h.wellFormed, ?_, h.control, h.up, h.down, h.inbound⟩
    intro w env' henv
    dsimp only at henv
    rcases mem_push.mp henv with henv | ⟨hw, -⟩
    · exact h.outbound w env' henv
    · cases hw
  | @sendControl p env rest hc =>
    have ht : Tidy N pb { s with up := push s.up p (Wire.send pb env) } := h.push_up fun w hw =>
      .inr (.inr (h.control w env (hw ▸ hc ▸ List.mem_cons_self)))
    exact ⟨ht.wellFormed, ht.outbound, fun w env' hm => h.control w env' (mem_of_mem_pop hc hm),
      ht.up, ht.down, ht.inbound⟩
  | @sendOutbound p env rest hc =>
    have ht : Tidy N pb { s with up := push s.up p (Wire.send pb env) } := h.push_up fun w hw =>
      .inl (h.outbound w env (hw ▸ hc ▸ List.mem_cons_self))
    exact ⟨ht.wellFormed, fun w env' hm => h.outbound w env' (mem_of_mem_pop hc hm), ht.control,
      ht.up, ht.down, ht.inbound⟩
  | sendHeartbeat p => exact h.push_up fun w hw => .inr (.inl (hw ▸ rfl))
  | takeNothing hu hr => exact h.pop_up hu
  | @take p fresh now group rest env hu hr =>
    refine Tidy.activate (s := recordTaken _ p env _) ?_ (by simp)
    obtain ⟨h1, h2, h3, h4, h5, h6⟩ := h.pop_up hu
    cases p with
    | inl w => exact ⟨h1, h2, h3, h4, h5, h6⟩
    | inr k =>
      rw [recordTaken_inr]
      exact ⟨h1, h2, h3, h4, h5, h6⟩
  | recvNothing hd hr => exact h.pop_down hd
  | @recv w group rest env hd hr =>
    have hkey := h.down w group (hd ▸ List.mem_cons_self) env hr
    obtain ⟨h1, h2, h3, h4, h5, h6⟩ := h.pop_down hd
    unfold linkReceives
    dsimp only
    split_ifs
    · exact ⟨h1, h2, h3, h4, h5, h6⟩
    · refine ⟨h1, h2, fun w' env' hm => ?_, h4, h5, h6⟩
      rcases mem_push.mp hm with hm | ⟨hw, rfl⟩
      · exact h3 w' env' hm
      · cases hw
        rfl
    · refine ⟨h1, h2, h3, h4, h5, fun b x hx => ?_⟩
      rcases mem_push.mp hx with hx | ⟨-, rfl⟩
      · exact h6 b x hx
      · exact hkey
  | @takePeer b fresh now w env rest hin =>
    have hkey := h.inbound b (w, env) (hin ▸ List.mem_cons_self)
    refine Tidy.activate (s := { s with inbound := _ }) ?_ ?_
    · exact ⟨h.wellFormed, h.outbound, h.control, h.up, h.down,
        fun b x hx => h.inbound b x (mem_of_mem_pop hin hx)⟩
    · rintro _ _ _ he
      cases he
      exact hkey
  | sweep b now => exact hnone (by simp)
  | broadcastStats b now => exact hnone (by simp)
  | addPeer key hw => exact hnone (by simp)
  | removePeer b key => exact hnone (by simp)
  | drop place i => exact absurd rfl (hlossless place i)

theorem Subscribing.take (h : s.Subscribing N pb w) (ht : Tidy N pb s) {fresh : Uuid} {now : Time}
    {group : Wire.Group} {rest : List Wire.Group} {env : Envelope}
    (hu : s.up (.inl w) = group :: rest) (hr : Wire.recv pb group = some env) :
    (Mesh.activate N pb { s with up := Function.update s.up (.inl w) rest } (N.home (.inl w))
      (.fromRouter fresh now env (N.identity (.inl w)))).Subscribing N pb w := by
  obtain ⟨env', hr', hlink⟩ := ht.up w group (hu ▸ List.mem_cons_self)
  obtain rfl : env = env' := Option.some.inj (hr.symm.trans hr')
  have hkey := hlink.key_ne
  intro hm
  rw [far_activate, if_pos rfl] at hm ⊢
  rcases @Broker.processFromRouter_own ω pb _ (ht.wellFormed (N.home (.inl w))) fresh now env
    (N.identity (.inl w)) with ⟨hd, -⟩ | ⟨hn, -, hreset⟩ | ⟨hknown, -, hsub⟩
  · exact absurd hd hkey.1
  · -- the link was unknown, and is asked for its subscription
    refine .inr (.inl ⟨Wire.sendFrames (Wire.encodeHeader pb Broker.resetMsg) [],
      List.mem_append_right _ ?_, ⟨Broker.resetMsg, []⟩, Wire.recv_sendFrames pb _ _, rfl⟩)
    rw [sentTo, if_pos rfl]
    refine List.mem_map.mpr ⟨_, List.mem_filter.mpr ⟨Effect.mem_clientSends.mpr hreset, ?_⟩, rfl⟩
    exact decide_eq_true rfl
  · by_cases hwild : env = wildcard N w
    · exact .inl ((hsub "").mpr (.inl ⟨hwild ▸ rfl, hwild ▸ rfl⟩))
    · rcases h hknown with hheld | ho
      · exact .inl ((hsub "").mpr (.inr ⟨hheld, fun hun => hkey.2 hun.1⟩))
      · have hne : Wire.recv pb group ≠ some (wildcard N w) := fun hg =>
          hwild (Option.some.inj (hr.symm.trans hg))
        exact .inr ((ho.pop_up hu fun _ => hne).mono (List.Subset.refl _) (List.Subset.refl _)
          (List.subset_append_left _ _))

theorem Subscribing.recv (h : s.Subscribing N pb w) {w' : ω} {group : Wire.Group}
    {rest : List Wire.Group} {env : Envelope} (hd : s.down (.inl w') = group :: rest)
    (hr : Wire.recv pb group = some env) :
    (linkReceives N { s with down := Function.update s.down (.inl w') rest } w' env).Subscribing
      N pb w := by
  have hpop : ∀ {env'}, env.key ≠ Keys.reset → Wire.recv pb group = some env' →
      env'.key ≠ Keys.reset := fun hk he => Option.some.inj (hr.symm.trans he) ▸ hk
  unfold linkReceives
  dsimp only
  split_ifs with hack hreset
  · have hk : env.key ≠ Keys.reset := by
      rw [hack]
      decide
    exact fun hm => (h hm).imp id fun ho => ho.pop_down hd fun _ _ he => hpop hk he
  · intro hm
    refine (h hm).imp id fun ho => ?_
    by_cases hw : w = w'
    · -- it answers with its subscription
      subst hw
      exact .inr (.inl (mem_push.mpr (.inr ⟨rfl, rfl⟩)))
    · refine (ho.pop_down hd fun hp => absurd (Sum.inl_injective hp) hw).mono ?_
        (List.Subset.refl _) (List.Subset.refl _)
      exact subset_push s.control (.inl w') (.inl w) _
  · exact fun hm => (h hm).imp id fun ho => ho.pop_down hd fun _ _ he => hpop hreset he

theorem Subscribing.step (h : s.Subscribing N pb w) (ht : Tidy N pb s)
    (hlossless : ∀ place i, e ≠ .drop place i) (he : s.step N pb e = some s') :
    s'.Subscribing N pb w := by
  have hother : ∀ {b : ι} {ev : Broker.Event ω}, ev.sender = none →
      (s.activate N pb b ev).Subscribing N pb w := fun hs =>
    h.activate (ht.wellFormed _) fun _ => by simp [hs]
  cases step_acts he with
  | @sendKey k env =>
    exact h.mono rfl (subset_push s.control (.inr k) (.inl w) env) (List.Subset.refl _)
      (List.Subset.refl _)
  | sendData => exact h.mono rfl (List.Subset.refl _) (List.Subset.refl _) (List.Subset.refl _)
  | @sendControl p env rest hc =>
    intro hm
    refine (h hm).imp id fun ho => ?_
    by_cases hp : .inl w = p
    · obtain rfl : env = wildcard N w := ht.control w env (hp ▸ hc ▸ List.mem_cons_self)
      exact .inr (.inr ⟨_, mem_push.mpr (.inr ⟨hp, rfl⟩), Wire.recv_send pb _⟩)
    · refine ho.mono ?_ (subset_push s.up p (.inl w) _) (List.Subset.refl _)
      change s.control (.inl w) ⊆ Function.update s.control p rest (.inl w)
      rw [Function.update_of_ne hp]
      exact List.Subset.refl _
  | @sendOutbound p env rest hc =>
    exact h.mono rfl (List.Subset.refl _) (subset_push s.up p (.inl w) _) (List.Subset.refl _)
  | sendHeartbeat p =>
    exact h.mono rfl (List.Subset.refl _) (subset_push s.up p (.inl w) _) (List.Subset.refl _)
  | takeNothing hu hr =>
    exact fun hm => (h hm).imp id fun ho => ho.pop_up hu fun _ => by simp [hr]
  | @take p fresh now group rest env hu hr =>
    by_cases hp : p = .inl w
    · subst hp
      exact h.take ht hu hr
    · have hpop : Subscribing N pb { s with up := Function.update s.up p rest } w := fun hm =>
        (h hm).imp id fun ho => ho.pop_up hu fun hp' => absurd hp'.symm hp
      refine Subscribing.activate (s := recordTaken _ p env _) ?_ ?_ ?_
      · cases p with
        | inl w' => exact hpop
        | inr k =>
          rw [recordTaken_inr]
          exact hpop
      · cases p with
        | inl w' => exact ht.wellFormed _
        | inr k =>
          rw [recordTaken_inr]
          exact ht.wellFormed _
      · exact fun hb hid => hp (N.identity_inj _ _ hb.symm (Option.some.inj hid))
  | recvNothing hd hr =>
    refine fun hm => (h hm).imp id fun ho => ho.pop_down hd fun hp env henv => ?_
    rw [hr w hp.symm] at henv
    cases henv
  | recv hd hr => exact h.recv hd hr
  | @takePeer b fresh now w' env rest hin =>
    refine Subscribing.activate (s := { s with inbound := _ }) ?_ (ht.wellFormed b) fun _ => by
      simp [Broker.Event.sender]
    exact h.mono rfl (List.Subset.refl _) (List.Subset.refl _) (List.Subset.refl _)
  | sweep b now => exact hother rfl
  | broadcastStats b now => exact hother rfl
  | addPeer key hw => exact hother rfl
  | removePeer b key => exact hother rfl
  | drop place i => exact absurd rfl (hlossless place i)

theorem subscribing_of_run (h : Reachable Initial (guarded Lossless (ofFun (Mesh.step N pb))) s) :
    Tidy N pb s ∧ ∀ w, s.Subscribing N pb w := by
  refine h.invariant (P := fun s => Tidy N pb s ∧ ∀ w, s.Subscribing N pb w) ?_ ?_
  · intro s₀ h₀
    refine ⟨tidy_initial h₀, fun w hm => ?_⟩
    obtain ⟨id, t, hb⟩ := h₀.1 (N.home (.inl w))
    rw [far, hb] at hm
    cases hm
  · rintro u e u' ⟨ht, hs⟩ ⟨hl, he⟩
    exact ⟨ht.step hl he, fun w => (hs w).step ht hl he⟩

/-- The link alone takes the mesh from the one state to the other. -/
def LinkRun (N : Network ι ω κ) (pb : Protobuf) (w : ω) (fresh : Uuid) (now : Time)
    (s s' : Mesh ι ω κ) : Prop :=
  ∃ tr, Run (guarded (Own w fresh now) (ofFun (Mesh.step N pb))) s tr s'

variable {t : Mesh ι ω κ}

theorem LinkRun.head (ho : Own w fresh now s e) (hs : s.step N pb e = some t)
    (hr : LinkRun N pb w fresh now t s') : LinkRun N pb w fresh now s s' := by
  obtain ⟨tr, hr⟩ := hr
  have hone : Run (guarded (Own w fresh now) (ofFun (Mesh.step N pb))) s [(e, t)] t :=
    .snoc (.nil s) ⟨ho, hs⟩
  exact ⟨_, hone.append hr⟩

theorem LinkRun.trans (h : LinkRun N pb w fresh now s t) (h' : LinkRun N pb w fresh now t s') :
    LinkRun N pb w fresh now s s' := by
  obtain ⟨tr, hr⟩ := h
  obtain ⟨tr', hr'⟩ := h'
  exact ⟨_, hr.append hr'⟩

theorem LinkRun.keeps (h : LinkRun N pb w fresh now s s') (ht : Tidy N pb s)
    (hs : s.Subscribing N pb w) : Tidy N pb s' ∧ s'.Subscribing N pb w := by
  obtain ⟨tr, hr⟩ := h
  refine hr.invariant (P := fun s => Tidy N pb s ∧ s.Subscribing N pb w) ⟨ht, hs⟩ ?_
  rintro u e u' ⟨ht, hs⟩ ⟨ho, he⟩
  exact ⟨ht.step ho.lossless he, hs.step ht ho.lossless he⟩

theorem drain_down (N : Network ι ω κ) (pb : Protobuf) (w : ω) (fresh : Uuid) (now : Time)
    (s : Mesh ι ω κ) : ∃ s', LinkRun N pb w fresh now s s' ∧
    s'.down (.inl w) = [] ∧ s'.up (.inl w) = s.up (.inl w) ∧ s'.broker = s.broker := by
  induction hd : s.down (.inl w) generalizing s with
  | nil => exact ⟨s, ⟨[], .nil s⟩, hd, rfl, rfl⟩
  | cons group rest ih =>
    have hone : ∃ s₁, s.step N pb (.recv (.inl w)) = some s₁ ∧ s₁.down (.inl w) = rest ∧
        s₁.up = s.up ∧ s₁.broker = s.broker := by
      simp only [Mesh.step, hd]
      cases hr : Wire.recv pb group with
      | none => exact ⟨_, rfl, Function.update_self _ _ _, rfl, rfl⟩
      | some env =>
        refine ⟨_, rfl, ?_⟩
        unfold linkReceives
        dsimp only
        split_ifs <;> exact ⟨Function.update_self _ _ _, rfl, rfl⟩
    obtain ⟨s₁, hs₁, hdown, hup, hb⟩ := hone
    obtain ⟨s', hr, hd', hu', hb'⟩ := ih s₁ hdown
    exact ⟨s', hr.head (.recv s) hs₁, hd', hu'.trans (congrFun hup _), hb'.trans hb⟩

theorem drain_control (N : Network ι ω κ) (pb : Protobuf) (w : ω) (fresh : Uuid) (now : Time)
    (s : Mesh ι ω κ) : ∃ s', LinkRun N pb w fresh now s s' ∧
    s'.control (.inl w) = [] ∧ s'.down = s.down ∧ s'.broker = s.broker := by
  induction hc : s.control (.inl w) generalizing s with
  | nil => exact ⟨s, ⟨[], .nil s⟩, hc, rfl, rfl⟩
  | cons env rest ih =>
    have hone : s.step N pb (.sendControl (.inl w)) = some { s with
        control := Function.update s.control (.inl w) rest
        up := push s.up (.inl w) (Wire.send pb env) } := by
      simp only [Mesh.step, hc]
    obtain ⟨s', hr, hc', hd', hb'⟩ := ih { s with
        control := Function.update s.control (.inl w) rest
        up := push s.up (.inl w) (Wire.send pb env) } (Function.update_self _ _ _)
    exact ⟨s', hr.head (.sendControl s) hone, hc', hd', hb'⟩

/-- The broker reads one message of the link: then it knows the link, and it has the subscription if
it knew the link before and the message is the subscription. -/
theorem take_own (fresh : Uuid) (now : Time) (ht : Tidy N pb s) {group : Wire.Group}
    {rest : List Wire.Group} (hu : s.up (.inl w) = group :: rest) :
    ∃ t, s.step N pb (.take (.inl w) fresh now) = some t ∧ t.up (.inl w) = rest ∧
      t.control = s.control ∧ N.identity (.inl w) ∈ (t.far N w).clients ∧
      (N.identity (.inl w) ∈ (s.far N w).clients →
        (s.far N w).Subscribed (N.identity (.inl w)) "" ∨ Wire.recv pb group = some (wildcard N w) →
        (t.far N w).Subscribed (N.identity (.inl w)) "") := by
  obtain ⟨env, hr, hlink⟩ := ht.up w group (hu ▸ List.mem_cons_self)
  have hstep : s.step N pb (.take (.inl w) fresh now) = some (Mesh.activate N pb
      { s with up := Function.update s.up (.inl w) rest } (N.home (.inl w))
        (.fromRouter fresh now env (N.identity (.inl w)))) := by
    simp only [Mesh.step, hu, hr]
    rfl
  refine ⟨_, hstep, Function.update_self _ _ _, rfl, ?_, ?_⟩
  · rw [far_activate, if_pos rfl]
    refine (Broker.mem_clients_processFromRouter fresh now env _ _).mpr ?_
    rw [if_neg hlink.key_ne.1]
    exact .inl rfl
  · intro hknown hsub
    rw [far_activate, if_pos rfl]
    rcases @Broker.processFromRouter_own ω pb _ (ht.wellFormed (N.home (.inl w))) fresh now env
      (N.identity (.inl w)) with ⟨hd, -⟩ | ⟨hn, -⟩ | ⟨-, -, hafter⟩
    · exact absurd hd hlink.key_ne.1
    · exact absurd hknown hn
    · refine (hafter "").mpr ?_
      rcases hsub with hheld | hwild
      · exact .inr ⟨hheld, fun hun => hlink.key_ne.2 hun.1⟩
      · obtain rfl : env = wildcard N w := Option.some.inj (hr.symm.trans hwild)
        exact .inl ⟨rfl, rfl⟩

theorem drain_up (w : ω) (fresh : Uuid) (now : Time) (ht : Tidy N pb s) :
    ∃ s', LinkRun N pb w fresh now s s' ∧ s'.up (.inl w) = [] ∧ s'.control = s.control ∧
      (N.identity (.inl w) ∈ (s.far N w).clients ∨ s.up (.inl w) ≠ [] →
        N.identity (.inl w) ∈ (s'.far N w).clients) ∧
      (N.identity (.inl w) ∈ (s.far N w).clients →
        ((s.far N w).Subscribed (N.identity (.inl w)) "" ∨
          ∃ group ∈ s.up (.inl w), Wire.recv pb group = some (wildcard N w)) →
        (s'.far N w).Subscribed (N.identity (.inl w)) "") := by
  induction hu : s.up (.inl w) generalizing s with
  | nil => exact ⟨s, ⟨[], .nil s⟩, hu, rfl, by simp, by simp⟩
  | cons group rest ih =>
    obtain ⟨t, hs, hrest, hcontrol, hknown, hsub⟩ := take_own fresh now ht hu
    obtain ⟨s', hr, hup, hcontrol', hknown', hsub'⟩ :=
      ih (ht.step (Own.lossless (.take (w := w) s)) hs) hrest
    refine ⟨s', hr.head (.take s) hs, hup, hcontrol'.trans hcontrol, fun _ => hknown' (.inl hknown),
      fun hm hor => hsub' hknown ?_⟩
    rcases hor with hheld | ⟨g, hg, hwild⟩
    · exact .inl (hsub hm (.inl hheld))
    · rcases List.mem_cons.mp hg with rfl | hg
      · exact .inl (hsub hm (.inr hwild))
      · exact .inr ⟨g, hg, hwild⟩

/-- From every state that a mesh gets to without a loss, a link can get its subscription alone: it
sends a heartbeat, answers the RESET, and its messages are read. -/
theorem can_subscribe (ht : Tidy N pb s) (hs : s.Subscribing N pb w) (fresh : Uuid) (now : Time) :
    ∃ s', LinkRun N pb w fresh now s s' ∧
      (s'.broker (N.home (.inl w))).Subscribed (N.identity (.inl w)) "" := by
  -- first the broker gets to know the link
  have hbeat : LinkRun N pb w fresh now s
      { s with
        up := push s.up (.inl w) (Wire.send pb (heartbeatEnvelope (N.identity (.inl w)))) } :=
    .head (.sendHeartbeat s) rfl ⟨[], .nil _⟩
  obtain ⟨ht₁, hs₁⟩ := hbeat.keeps ht hs
  obtain ⟨s₂, hr₂, hu₂, -, hk₂, -⟩ := drain_up w fresh now ht₁
  have hknown : N.identity (.inl w) ∈ (s₂.far N w).clients := hk₂ (.inr fun hnil => by
    have hm : Wire.send pb (heartbeatEnvelope (N.identity (.inl w))) ∈
        push s.up (.inl w) (Wire.send pb (heartbeatEnvelope (N.identity (.inl w)))) (.inl w) :=
      mem_push.mpr (.inr ⟨rfl, rfl⟩)
    rw [show push s.up (.inl w) _ (.inl w) = [] from hnil] at hm
    cases hm)
  obtain ⟨ht₂, hs₂⟩ := hr₂.keeps ht₁ hs₁
  -- then the link answers what has come down
  obtain ⟨s₃, hr₃, hd₃, hu₃, hb₃⟩ := drain_down N pb w fresh now s₂
  obtain ⟨s₄, hr₄, hc₄, hd₄, hb₄⟩ := drain_control N pb w fresh now s₃
  obtain ⟨ht₃, hs₃⟩ := hr₃.keeps ht₂ hs₂
  obtain ⟨ht₄, hs₄⟩ := hr₄.keeps ht₃ hs₃
  have hknown₄ : N.identity (.inl w) ∈ (s₄.far N w).clients := by
    rw [far, hb₄, hb₃]
    exact hknown
  have howed : (s₄.far N w).Subscribed (N.identity (.inl w)) "" ∨
      ∃ group ∈ s₄.up (.inl w), Wire.recv pb group = some (wildcard N w) := by
    refine (hs₄ hknown₄).imp id fun ho => ?_
    rcases ho with ⟨g, hg, -⟩ | hc | hup
    · rw [hd₄, hd₃] at hg
      cases hg
    · rw [hc₄] at hc
      cases hc
    · exact hup
  obtain ⟨s₅, hr₅, -, -, -, hsub⟩ := drain_up w fresh now ht₄
  exact ⟨s₅, hbeat.trans (hr₂.trans (hr₃.trans (hr₄.trans hr₅))), hsub hknown₄ howed⟩

/-- As long as nothing is lost, a link that is known at its other end holds the wildcard
subscription there unless a RESET is on its way to it or its answer on the way back; a known link
with nothing under way is subscribed. And from every such state the link alone can get its
subscription: no sweep, no order of messages leaves it in a state it cannot get out of. -/
theorem links_subscribe
    (h : Reachable Initial (guarded Lossless (ofFun (Mesh.step N pb))) s) (w : ω) :
    (N.identity (.inl w) ∈ (s.broker (N.home (.inl w))).clients →
      (s.broker (N.home (.inl w))).Subscribed (N.identity (.inl w)) "" ∨ s.Owes N pb w) ∧
    (N.identity (.inl w) ∈ (s.broker (N.home (.inl w))).clients →
      s.control (.inl w) = [] → s.up (.inl w) = [] → s.down (.inl w) = [] →
      (s.broker (N.home (.inl w))).Subscribed (N.identity (.inl w)) "") ∧
    ∀ fresh now, ∃ tr s', Run (guarded (Own w fresh now) (ofFun (Mesh.step N pb))) s tr s' ∧
      (s'.broker (N.home (.inl w))).Subscribed (N.identity (.inl w)) "" := by
  obtain ⟨ht, hs⟩ := subscribing_of_run h
  refine ⟨hs w, fun hk hc hu hd => (hs w hk).resolve_right ?_, fun fresh now => ?_⟩
  · simp [Owes, hc, hu, hd]
  · obtain ⟨s', ⟨tr, hr⟩, hsub⟩ := can_subscribe ht (hs w) fresh now
    exact ⟨tr, s', hr, hsub⟩

instance (s : Mesh ι ω κ) : (e : Event ι ω κ) → Decidable (s.Lossless e)
  | .drop place i => isFalse fun h => h place i rfl
  | .send _ _ | .sendControl _ | .sendOutbound _ | .sendHeartbeat _ | .take _ _ _ | .recv _
  | .takePeer _ _ _ | .sweep _ _ | .broadcastStats _ _ | .addPeer _ _ _ | .removePeer _ _ =>
    isTrue (by simp [Lossless])

/-- A link has been asked for its subscription. -/
def asking : List (Event Bool Bool Bool) :=
  [.addPeer false "peer" false, .sendHeartbeat (.inl false), .take (.inl false) newsUuid 0]

def asked : Mesh Bool Bool Bool :=
  (exec (Mesh.step mutualDial BrokerProto.proto3) started asking).get (by decide +kernel)

theorem links_subscribe_asked :
    ¬ (asked.broker true).Subscribed "BrokerLink-broker-0" "" ∧
    asked.Owes mutualDial BrokerProto.proto3 false ∧
    ∃ tr s', Run (guarded (Own false newsUuid 0) (ofFun (Mesh.step mutualDial BrokerProto.proto3)))
      asked tr s' ∧ (s'.broker true).Subscribed "BrokerLink-broker-0" "" := by
  have hr : Run (guarded Lossless (ofFun (Mesh.step mutualDial BrokerProto.proto3))) started
      (trace (Mesh.step mutualDial BrokerProto.proto3) started asking) asked :=
    exec_guarded (by decide +kernel) (by simp [asked])
  have hi : started.Initial := ⟨fun b => ⟨_, 0, rfl⟩, rfl⟩
  obtain ⟨howes, -, hcan⟩ := links_subscribe ⟨started, _, hi, hr⟩ false
  have hnot : ¬ (asked.broker true).Subscribed "BrokerLink-broker-0" "" := by decide +kernel
  exact ⟨hnot, (howes (by decide +kernel)).resolve_left hnot, hcan newsUuid 0⟩

end ZmqPubSub.Mesh
