import ZmqPubSub.MeshDelivery

/-!
A broker takes the data messages of a client in the order in which the client wrote them, and no
path through an established mesh overtakes another.
-/

namespace ZmqPubSub

open Containers TransitionSystem

namespace Mesh

variable {ι ω κ : Type*}
variable {N : Network ι ω κ} {pb : Protobuf} {s s' : Mesh ι ω κ} {e : Event ι ω κ}

/-- The data messages that a client wrote are those that its broker took, then those on their
way. -/
structure InOrder (pb : Protobuf) (s : Mesh ι ω κ) (k : κ) : Prop where
  control : ∀ env ∈ s.control (.inr k), Keys.isControlMessage env.key = true
  outbound : ∀ env ∈ s.outbound (.inr k), Keys.isControlMessage env.key = false
  written : s.written k = (s.taken k).map Prod.fst ++
    (((s.up (.inr k)).filterMap (Wire.recv pb)).filter
        (fun env => !Keys.isControlMessage env.key) ++
      s.outbound (.inr k))

/-- Nothing that happens beyond the client and its broker matters. -/
theorem InOrder.congr {k : κ} (h : InOrder pb s k) (hc : s'.control (.inr k) = s.control (.inr k))
    (ho : s'.outbound = s.outbound) (hu : s'.up = s.up) (hw : s'.written = s.written)
    (ht : s'.taken = s.taken) : InOrder pb s' k := by
  refine ⟨?_, ?_, ?_⟩
  · rw [hc]
    exact h.control
  · rw [ho]
    exact h.outbound
  · rw [hw, ht, hu, ho]
    exact h.written

variable [DecidableEq ι] [DecidableEq ω]

theorem InOrder.activate {k : κ} (h : InOrder pb s k) (b : ι) (ev : Broker.Event ω) :
    InOrder pb (s.activate N pb b ev) k := by
  have ho : (s.activate N pb b ev).outbound (.inr k) = s.outbound (.inr k) := List.append_nil _
  refine ⟨h.control, ?_, ?_⟩
  · rw [ho]
    exact h.outbound
  · rw [ho]
    exact h.written

/-- The message `x` of a client came before its message `y`, or was not routed at all. -/
def Precedes (N : Network ι ω κ) (pb : Protobuf) (s : Mesh ι ω κ) (x y : Envelope × Envelope) :
    Prop :=
  Flooding.Before N.graph x.2 y.2 (s.flooding N pb) ∨ ∀ b, x.2 ∉ s.routed pb b

theorem Sane.not_after (h : Sane N pb s) {x y : Envelope × Envelope} (hb : Precedes N pb s x y)
    (htx : x.2.tracked = true) (hty : y.2.tracked = true) {b : ι} {c : String}
    {l l' : List Envelope} (hl : s.deliveries pb b c = l ++ y.2 :: l') : x.2 ∉ l' := by
  intro hx
  obtain ⟨r, r', hr⟩ := List.append_of_mem hx
  -- then `x` follows `y` in what the broker routed
  have hyx : [y.2, x.2].Sublist (s.routed pb b) := by
    refine List.Sublist.trans ?_ (h.delivered b c)
    rw [hl, hr]
    simp only [List.filter_append, List.filter_cons, hty, htx, if_true]
    refine List.Sublist.trans ?_ (List.sublist_append_right _ _)
    refine List.Sublist.cons_cons y.2 ?_
    exact List.Sublist.trans ((List.nil_sublist _).cons_cons x.2) (List.sublist_append_right _ _)
  rcases hb with hb | hn
  · obtain ⟨p, q, hp⟩ := List.append_of_mem (hyx.subset List.mem_cons_self)
    have hxp := hb.nodes b p q hp
    have hnodup : (p ++ y.2 :: q).Nodup := hp ▸ h.sound.nodup b
    have hdisj := List.disjoint_of_nodup_append hnodup
    rw [hp] at hyx
    obtain ⟨l₁, l₂, he, h₁, h₂⟩ := List.sublist_append_iff.mp hyx
    cases l₁ with
    | nil =>
      obtain rfl : [y.2, x.2] = l₂ := he
      exact hdisj hxp (h₂.subset (List.mem_cons_of_mem y.2 List.mem_cons_self))
    | cons z l₁ =>
      obtain rfl : y.2 = z := List.head_eq_of_cons_eq he
      exact hdisj (h₁.subset List.mem_cons_self) List.mem_cons_self
  · exact hn b (hyx.subset (List.mem_cons_of_mem y.2 List.mem_cons_self))

variable [DecidableEq κ]

theorem InOrder.send {k k' : κ} {env : Envelope} (h : InOrder pb s k)
    (he : s.step N pb (.send k' env) = some s') : InOrder pb s' k := by
  cases step_acts he with
  | sendKey hc =>
    refine ⟨fun env' hm => ?_, h.outbound, h.written⟩
    dsimp only at hm
    rcases mem_push.mp hm with hm | ⟨-, rfl⟩
    · exact h.control env' hm
    · exact hc
  | sendData hc =>
    refine ⟨h.control, fun env' hm => ?_, ?_⟩
    · dsimp only at hm
      rcases mem_push.mp hm with hm | ⟨-, rfl⟩
      · exact h.outbound env' hm
      · simpa using hc
    · simp only [push_apply, h.written, Sum.inr.injEq]
      split_ifs <;> simp

theorem InOrder.sendControl {k : κ} {p : ω ⊕ κ} (h : InOrder pb s k)
    (he : s.step N pb (.sendControl p) = some s') : InOrder pb s' k := by
  cases step_acts he with
  | @sendControl _ env rest hc =>
    refine ⟨fun env' hm => h.control env' (mem_of_mem_pop hc hm), h.outbound, ?_⟩
    rw [up_push, h.written, List.filter_append]
    split_ifs with hp
    · have hk := h.control env (by rw [hp, hc]; exact List.mem_cons_self)
      simp [hk]
    · simp

theorem InOrder.sendOutbound {k : κ} {p : ω ⊕ κ} (h : InOrder pb s k)
    (he : s.step N pb (.sendOutbound p) = some s') : InOrder pb s' k := by
  cases step_acts he with
  | @sendOutbound _ env rest hc =>
    refine ⟨h.control, fun env' hm => h.outbound env' (mem_of_mem_pop hc hm), ?_⟩
    simp only [up_push, h.written, List.filter_append, Function.update_apply]
    split_ifs with hp
    · have hk := h.outbound env (by rw [hp, hc]; exact List.mem_cons_self)
      simp [hp, hc, hk]
    · simp

theorem InOrder.take {k : κ} {p : ω ⊕ κ} {fresh : Uuid} {now : Time} (h : InOrder pb s k)
    (he : s.step N pb (.take p fresh now) = some s') : InOrder pb s' k := by
  cases step_acts he with
  | takeNothing hu hr =>
    refine ⟨h.control, h.outbound, ?_⟩
    simp only [h.written, Function.update_apply]
    split_ifs with hp
    · simp [hp, hu, hr]
    · rfl
  | take hu hr =>
    refine InOrder.activate ?_ _ _
    cases p with
    | inl w =>
      refine ⟨h.control, h.outbound, ?_⟩
      simpa [recordTaken] using h.written
    | inr k' =>
      rw [recordTaken_inr]
      refine ⟨h.control, h.outbound, ?_⟩
      simp only [h.written, Function.update_apply, Sum.inr.injEq]
      split_ifs with hc hk hk
      · subst hk
        simp [hu, hr, hc]
      · rfl
      · subst hk
        simp [push_apply, hu, hr, hc]
      · simp [push_apply, hk]

theorem InOrder.step {k : κ} (h : InOrder pb s k) (hf : e.isFixed = true)
    (he : s.step N pb e = some s') : InOrder pb s' k := by
  cases e with
  | send k' env => exact h.send he
  | sendControl p => exact h.sendControl he
  | sendOutbound p => exact h.sendOutbound he
  | sendHeartbeat p =>
    obtain rfl := Option.some.inj he
    refine ⟨h.control, h.outbound, ?_⟩
    have hk : Keys.isControlMessage (heartbeatEnvelope (N.identity p)).key = true := by
      simp [Keys.isControlMessage, heartbeatEnvelope, createControlEnvelope, Envelope.key]
    simp only [up_push, h.written, List.filter_append]
    split_ifs
    · simp [hk]
    · simp
  | take p fresh now => exact h.take he
  | recv p =>
    cases step_acts he with
    | recv =>
      unfold linkReceives
      dsimp only
      split_ifs
      · exact h.congr rfl rfl rfl rfl rfl
      · refine h.congr ?_ rfl rfl rfl rfl
        simp [push_apply]
      · exact h.congr rfl rfl rfl rfl rfl
    | recvNothing => exact h.congr rfl rfl rfl rfl rfl
  | takePeer b fresh now =>
    cases step_acts he with
    | takePeer =>
      refine InOrder.activate ?_ _ _
      exact h.congr rfl rfl rfl rfl rfl
  | sweep b now =>
    obtain rfl := Option.some.inj he
    exact h.activate b _
  | broadcastStats b now =>
    obtain rfl := Option.some.inj he
    exact h.activate b _
  | addPeer b key w => cases hf
  | removePeer b key => cases hf
  | drop place i => cases hf

theorem Sane.routed_step (h : Sane N pb s) (hf : Fires N pb s s') {b : ι} {env : Envelope}
    (henv : env ∈ s'.routed pb b) : (∃ b', env ∈ s.routed pb b') ∨ s.Unused env.uuid := by
  cases hf with
  | moves hm _ _ => exact Or.inl ⟨b, hm.routed ▸ henv⟩
  | keeps _ _ hm _ _ _ => exact Or.inl ⟨b, hm.routed ▸ henv⟩
  | visits b' ev hm hv ha _ =>
    rcases (hm.mem_routed_activate b env).mp henv with henv | ⟨-, hacc⟩
    · exact Or.inl ⟨b, henv⟩
    · obtain ⟨sender, ids, hr⟩ := (h.standing.activation b' ev).routed_of_accepted hacc
      exact h.brought ha hr.brings

theorem Fires.routed_mono (hf : Fires N pb s s') {b : ι} {env : Envelope}
    (henv : env ∈ s.routed pb b) : env ∈ s'.routed pb b := by
  cases hf with
  | moves hm _ _ => exact hm.routed ▸ henv
  | keeps _ _ hm _ _ _ => exact hm.routed ▸ henv
  | visits b' ev hm hv ha _ => exact (hm.mem_routed_activate b env).mpr (Or.inl henv)

/-- A step records at most one message of a client, and then its broker routes no other. -/
theorem Sane.taken_step (h : Sane N pb s) (hf : Fires N pb s s') : s'.taken = s.taken ∨
    ∃ k x, s'.taken = push s.taken k x ∧ (x.2.IsData ∧ x.2.tracked = true) ∧ s.Unused x.2.uuid ∧
      ∀ b, ∀ env ∈ s'.routed pb b, env ∈ s.routed pb b ∨ (b = N.home (.inr k) ∧ env = x.2) := by
  cases hf with
  | moves _ ht _ => exact Or.inl ht
  | keeps _ _ _ ht _ _ => exact Or.inl ht
  | @visits t b ev hm hv ha hrec =>
    have htaken : (t.activate N pb b ev).taken = t.taken := rfl
    rw [htaken]
    cases hrec with
    | other ht _ => exact Or.inl ht
    | client k fresh now env hh hev hu ht =>
      rw [ht]
      split_ifs with hc
      · exact Or.inl rfl
      · refine Or.inr ⟨k, _, rfl, ⟨?_, ?_⟩, hu, fun b' env' henv => ?_⟩
        · rw [Envelope.IsData, Broker.stamped_key]
          simpa using hc
        · simpa [Envelope.tracked] using Broker.stamped_uuid_ne fresh env
        · rcases (hm.mem_routed_activate b' env').mp henv with henv | ⟨rfl, hacc⟩
          · exact Or.inl henv
          · refine Or.inr ⟨hh.symm, ?_⟩
            obtain ⟨sender, ids, hr⟩ := (h.standing.activation b' ev).routed_of_accepted hacc
            subst hev
            cases hr.brings
            rfl

/-- The messages of a client are data, enter the mesh at its broker, if at all, and keep their
order. -/
structure Ordered (N : Network ι ω κ) (pb : Protobuf) (s : Mesh ι ω κ) (k : κ) : Prop where
  data : ∀ x ∈ s.taken k, x.2.IsData ∧ x.2.tracked = true
  home : ∀ x ∈ s.taken k, x.2 ∈ s.routed pb (N.home (.inr k)) ∨ ∀ b, x.2 ∉ s.routed pb b
  pairs : (s.taken k).Pairwise (Precedes N pb s)

theorem Sane.unrouted_step (h : Sane N pb s) (hf : Fires N pb s s') {k : κ}
    {x : Envelope × Envelope} (hx : x ∈ s.taken k) (hn : ∀ b, x.2 ∉ s.routed pb b) (b : ι) :
    x.2 ∉ s'.routed pb b := by
  intro hm
  rcases h.routed_step hf hm with ⟨b', hm⟩ | hu
  · exact hn b' hm
  · exact hu.2 k x hx rfl

theorem Sane.precedes_step (h : Sane N pb s) (hf : Fires N pb s s')
    (hs : Flooding.Step N.graph Envelope.IsData (s.flooding N pb) (s'.flooding N pb)) {k : κ}
    {x y : Envelope × Envelope} (hx : x ∈ s.taken k) (hy : y ∈ s.taken k) (hd : x.2.IsData)
    (hp : Precedes N pb s x y) : Precedes N pb s' x y := by
  rcases hp with hp | hn
  · refine Or.inl (hp.step h.sound hd hs fun habs b hb => ?_)
    exact absurd hb (h.unrouted_step hf hy habs b)
  · exact Or.inr (h.unrouted_step hf hx hn)

theorem Sane.precedes_new (h : Sane N pb s) (hf : Fires N pb s s')
    (hs : Flooding.Step N.graph Envelope.IsData (s.flooding N pb) (s'.flooding N pb)) {k : κ}
    {x y : Envelope × Envelope} (hx : x ∈ s.taken k) (hd : x.2.IsData)
    (hhome : x.2 ∈ s.routed pb (N.home (.inr k)) ∨ ∀ b, x.2 ∉ s.routed pb b)
    (hu : s.Unused y.2.uuid)
    (hnew : ∀ b, ∀ env ∈ s'.routed pb b,
      env ∈ s.routed pb b ∨ (b = N.home (.inr k) ∧ env = y.2)) : Precedes N pb s' x y := by
  rcases hhome with hhome | hn
  · have habs : ∀ b, y.2 ∉ s.routed pb b := fun b hb => hu.1 b (h.kept.remembered b y.2 hb)
    have hb : Flooding.Before N.graph x.2 y.2 (s.flooding N pb) :=
      .of_absent habs fun e hm => habs _ (h.sound.sent e y.2 hm)
    refine Or.inl (hb.step h.sound hd hs fun _ b hm => ?_)
    rcases hnew b y.2 hm with hm | ⟨rfl, -⟩
    · exact absurd hm (habs b)
    · exact hhome
  · exact Or.inr (h.unrouted_step hf hx hn)

theorem Ordered.step {k : κ} (ho : Ordered N pb s k) (h : Sane N pb s)
    (he : FixedStep N pb s e s') : Ordered N pb s' k := by
  have hf := step_fires h.standing h.lawful he
  have hs := (h.step he).2
  have hold : ∀ x ∈ s.taken k, x.2 ∈ s'.routed pb (N.home (.inr k)) ∨ ∀ b, x.2 ∉ s'.routed pb b :=
    fun x hx => (ho.home x hx).imp hf.routed_mono (h.unrouted_step hf hx)
  have hpairs : (s.taken k).Pairwise (Precedes N pb s') :=
    ho.pairs.imp_of_mem fun hx hy hp => h.precedes_step hf hs hx hy (ho.data _ hx).1 hp
  have same : s'.taken k = s.taken k → Ordered N pb s' k := by
    intro ht
    refine ⟨?_, ?_, ?_⟩ <;> rw [ht]
    · exact ho.data
    · exact hold
    · exact hpairs
  rcases h.taken_step hf with ht | ⟨k', y, ht, hd, hu, hnew⟩
  · exact same (congrFun ht k)
  · by_cases hk : k = k'
    · subst hk
      have htk : s'.taken k = s.taken k ++ [y] := by rw [ht, push_apply, if_pos rfl]
      refine ⟨?_, ?_, ?_⟩
      · intro x hx
        rw [htk, List.mem_append, List.mem_singleton] at hx
        rcases hx with hx | rfl
        · exact ho.data x hx
        · exact hd
      · intro x hx
        rw [htk, List.mem_append, List.mem_singleton] at hx
        rcases hx with hx | rfl
        · exact hold x hx
        · by_cases hm : x.2 ∈ s'.routed pb (N.home (.inr k))
          · exact Or.inl hm
          · refine Or.inr fun b hb => ?_
            rcases hnew b x.2 hb with hb' | ⟨rfl, -⟩
            · exact hu.1 b (h.kept.remembered b x.2 hb')
            · exact hm hb
      · rw [htk, List.pairwise_append]
        refine ⟨hpairs, List.pairwise_singleton _ _, fun x hx y' hy => ?_⟩
        rw [List.mem_singleton.mp hy]
        exact h.precedes_new hf hs hx (ho.data x hx).1 (ho.home x hx) hu hnew
    · exact same (by rw [ht, push_apply, if_neg hk])

/-- The broker takes the data messages of a client in the order in which they were written, and
nobody anywhere is sent an earlier one after a later one. -/
theorem publisher_order {s₀ : Mesh ι ω κ} {tr : List (Event ι ω κ × Mesh ι ω κ)}
    (h₀ : s₀.Established N pb) (hr : Run (FixedStep N pb) s₀ tr s) (k : κ) :
    (s.taken k).map Prod.fst <+: s.written k ∧
    (s.taken k).Pairwise fun x y => ∀ b c l l',
      s.deliveries pb b c = l ++ y.2 :: l' → x.2 ∉ l' := by
  have h := sane_of_run h₀ hr
  have hin : InOrder pb s k := by
    refine hr.invariant (P := fun s => InOrder pb s k) ?_ fun _ _ _ h he => h.step he.1.isFixed he.2
    rw [h₀.2]
    exact ⟨by simp, by simp, rfl⟩
  have hord : Ordered N pb s k := by
    refine hr.traceInvariant (P := fun _ s => Ordered N pb s k) ?_ ?_
    · rw [h₀.2]
      exact ⟨by simp, by simp, .nil⟩
    · intro tr u e u' hru ih he
      exact ih.step (sane_of_run h₀ hru) he
  refine ⟨⟨_, hin.written.symm⟩, ?_⟩
  refine hord.pairs.imp_of_mem fun hx hy hp b c l l' hl => ?_
  exact h.not_after hp (hord.data _ hx).2 (hord.data _ hy).2 hl

def moreNewsUuid : Uuid := ⟨"00000000-0000-4000-8000-000000000002", by decide⟩

def publishingTwice : List (Event Bool Bool Bool) :=
  [.send false { header := { handlerKey := "news", topic := "news" }, payload := [1] },
    .send false { header := { handlerKey := "news", topic := "news" }, payload := [2] },
    .sendOutbound (.inr false), .sendOutbound (.inr false), .take (.inr false) newsUuid 0,
    .take (.inr false) moreNewsUuid 0, .sendOutbound (.inl false), .sendOutbound (.inl false),
    .take (.inl false) newsUuid 0, .take (.inl false) newsUuid 0]

def publishedTwice : Mesh Bool Bool Bool :=
  (exec (step mutualDial BrokerProto.proto3) linkedUp publishingTwice).get (by decide +kernel)

theorem publisher_order_news :
    ((publishedTwice.deliveries BrokerProto.proto3 true "client-b").map Envelope.uuid =
      [newsUuid.val, moreNewsUuid.val]) ∧
    (publishedTwice.taken false).Pairwise fun x y => ∀ b c l l',
      publishedTwice.deliveries BrokerProto.proto3 b c = l ++ y.2 :: l' → x.2 ∉ l' := by
  have hr : Run (FixedStep mutualDial BrokerProto.proto3) linkedUp
      (trace (step mutualDial BrokerProto.proto3) linkedUp publishingTwice) publishedTwice :=
    exec_guarded (by decide +kernel) (by simp [publishedTwice])
  exact ⟨by decide +kernel, (publisher_order linkedUp_established hr false).2⟩

end Mesh

end ZmqPubSub
