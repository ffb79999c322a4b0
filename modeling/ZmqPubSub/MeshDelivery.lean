import ZmqPubSub.MeshFlooding

/-!
The flood carries every data message to every broker once and keeps the order of each publisher.
What a client is sent is what its broker routed.
-/

namespace ZmqPubSub

open Containers HistoryWindow TransitionSystem

namespace Mesh

variable {ι ω κ : Type*}

/-- A broker has seen what it routed, and what one broker routed is the only message with its
uuid. -/
structure Kept (routed : ι → List Envelope) (seen : ι → Finset String) : Prop where
  remembered : ∀ b, ∀ env ∈ routed b, env.uuid ∈ seen b
  known : ∀ b b', ∀ env ∈ routed b, env.uuid ∈ seen b' → env ∈ routed b'
  unique : ∀ b b', ∀ env ∈ routed b, ∀ env' ∈ routed b', env.uuid = env'.uuid → env = env'

theorem Kept.accept {routed routed' : ι → List Envelope} {seen seen' : ι → Finset String} {b : ι}
    {m : Envelope} (h : Kept routed seen)
    (hr : ∀ b' x, x ∈ routed' b' ↔ x ∈ routed b' ∨ (b' = b ∧ x = m))
    (hs : ∀ b' u, u ∈ seen' b' ↔ u ∈ seen b' ∨ (b' = b ∧ u = m.uuid))
    (hm : (∃ b', m ∈ routed b') ∨ ∀ b', m.uuid ∉ seen b') : Kept routed' seen' := by
  have same : ∀ b' x, x ∈ routed b' → x.uuid = m.uuid → x = m := by
    intro b' x hx hu
    rcases hm with ⟨b₀, hm⟩ | hm
    · exact h.unique b' b₀ x hx m hm hu
    · exact absurd (hu ▸ h.remembered b' x hx) (hm b')
  refine ⟨?_, ?_, ?_⟩
  · intro b' x hx
    rw [hs]
    rcases (hr b' x).mp hx with hx | ⟨hb, rfl⟩
    · exact Or.inl (h.remembered b' x hx)
    · exact Or.inr ⟨hb, rfl⟩
  · intro b₁ b₂ x hx hu
    rw [hr]
    rcases (hs b₂ x.uuid).mp hu with hu | ⟨hb, hu⟩
    · rcases (hr b₁ x).mp hx with hx | ⟨-, rfl⟩
      · exact Or.inl (h.known b₁ b₂ x hx hu)
      · rcases hm with ⟨b₀, hm⟩ | hm
        · exact Or.inl (h.known b₀ b₂ x hm hu)
        · exact absurd hu (hm b₂)
    · rcases (hr b₁ x).mp hx with hx | ⟨-, hx⟩
      · exact Or.inr ⟨hb, same b₁ x hx hu⟩
      · exact Or.inr ⟨hb, hx⟩
  · intro b₁ b₂ x hx y hy hu
    rcases (hr b₁ x).mp hx with hx | ⟨-, rfl⟩
    · rcases (hr b₂ y).mp hy with hy | ⟨-, rfl⟩
      · exact h.unique b₁ b₂ x hx y hy hu
      · exact same b₁ x hx hu
    · rcases (hr b₂ y).mp hy with hy | ⟨-, rfl⟩
      · exact (same b₂ y hy hu.symm).symm
      · rfl

variable {N : Network ι ω κ} {pb : Protobuf} {s t s' : Mesh ι ω κ} {b : ι} {ev : Broker.Event ω}

theorem Standing.mem_check (h : Standing N pb s.broker) {u : String}
    (he : (s.broker b).window.seen ⊆ (check Broker.maxHistorySize (s.broker b).window u).2.seen)
    (x : String) : x ∈ (check Broker.maxHistorySize (s.broker b).window u).2.seen ↔
      x ∈ (s.broker b).window.seen ∨ x = u := by
  obtain ⟨acts, ha⟩ := h.history b
  constructor
  · exact fun hx => (mem_of_mem_check hx).symm
  · rintro (hx | rfl)
    · exact he hx
    · exact ha.answered.tracks.mem_check (by decide) x

variable [DecidableEq ι]

theorem Standing.activate (h : Standing N pb s.broker) (hv : Visit N pb s b ev) :
    Standing N pb (Function.update s.broker b ((s.broker b).step pb ev).1) := by
  have hl : ((s.broker b).step pb ev).1.links = (s.broker b).links := by
    rw [Broker.links, Broker.links, hv.peers]
  refine ⟨?_, ?_, ?_, ?_⟩
  · intro b'
    by_cases hb : b' = b
    · subst hb
      obtain ⟨acts, ha⟩ := h.history b'
      rw [Function.update_self]
      exact ⟨_, ha.step ev⟩
    · rw [Function.update_of_ne hb]
      exact h.history b'
  · intro b' w
    rw [Function.update_apply, apply_ite Broker.links, hl]
    split_ifs with hb
    · rw [hb]
      exact h.peers b w
    · exact h.peers b' w
  · intro b'
    rw [Function.update_apply, apply_ite Broker.links, hl]
    split_ifs
    · exact h.nodup b
    · exact h.nodup b'
  · intro w
    rw [Function.update_apply]
    split_ifs with hb
    · exact hv.links w hb
    · exact h.links w

theorem Moved.routed (hm : Moved N pb s t) : t.routed pb = s.routed pb := by
  funext b
  rw [Mesh.routed, Mesh.routed, activations, activations, hm.log]

theorem Moved.deliveries (hm : Moved N pb s t) : t.deliveries pb = s.deliveries pb := by
  funext b c
  rw [Mesh.deliveries, Mesh.deliveries, activations, activations, hm.log]

variable [DecidableEq ω]

/-- What holds throughout a run of an established mesh. -/
structure Sane (N : Network ι ω κ) (pb : Protobuf) (s : Mesh ι ω κ) : Prop where
  standing : Standing N pb s.broker
  lawful : Lawful N pb s
  kept : Kept (s.routed pb) fun b => (s.broker b).window.seen
  sound : Flooding.Sound N.graph Envelope.IsData (s.flooding N pb)
  tracked : ∀ b, ∀ env ∈ s.routed pb b, env.tracked = true
  delivered : ∀ b c, ((s.deliveries pb b c).filter Envelope.tracked).Sublist (s.routed pb b)

theorem Established.sane (h : s.Established N pb) : Sane N pb s := by
  obtain ⟨hs, he⟩ := h
  generalize s.broker = broker at hs he
  subst he
  have hr : ∀ b, routed pb ({ broker := broker } : Mesh ι ω κ) b = [] := fun b => rfl
  have hp : ∀ e, pending N pb ({ broker := broker } : Mesh ι ω κ) e = [] := by
    rintro (w | w) <;> rfl
  refine ⟨hs, ⟨?_, ?_, ?_, ?_, ?_⟩, ⟨?_, ?_, ?_⟩, ⟨?_, ?_, ?_⟩, ?_, ?_⟩
  all_goals simp [hr, hp, flooding, deliveries, activations]

theorem flooding_activate_congr (hb : t.broker = s.broker)
    (hf : t.flooding N pb = s.flooding N pb) :
    (t.activate N pb b ev).flooding N pb = (s.activate N pb b ev).flooding N pb := by
  have hr : t.routed pb = s.routed pb := congrArg Flooding.State.accepted hf
  have hp : t.pending N pb = s.pending N pb := congrArg Flooding.State.pending hf
  have hr' : (t.activate N pb b ev).routed pb = (s.activate N pb b ev).routed pb := by
    funext b'
    rw [routed_activate, routed_activate, hb, hr]
  have hp' : (t.activate N pb b ev).pending N pb = (s.activate N pb b ev).pending N pb := by
    funext e
    rw [pending_activate, pending_activate, hb, hp]
  rw [flooding, flooding, hr', hp']

/-- What arrives over an edge was routed at its other end. -/
theorem Sane.sent (h : Sane N pb s) {e : Edge ω} {m : Envelope}
    (hhead : ∃ rest, s.pending N pb e = m :: rest) : m ∈ s.routed pb (N.graph.src e) := by
  obtain ⟨rest, hhead⟩ := hhead
  have hm : m ∈ s.pending N pb e := by
    rw [hhead]
    exact List.mem_cons_self
  exact h.sound.sent e m hm

theorem Sane.accepts (h : Sane N pb s) (ha : Arrival N pb s t b ev) {w : Window String}
    {sender : Option String} {env : Envelope} {ids : List String}
    (hr : Broker.Routed pb (s.broker b) ev ((s.broker b).step pb ev).2 w sender env ids) :
    Flooding.Accepts N.graph b env (s.flooding N pb) ((s.activate N pb b ev).flooding N pb) := by
  refine accepts_of_routed h.standing hr ?_ ?_
  · exact fun hm => hr.fresh (h.kept.remembered b env hm)
  · intro w hw hs
    cases ha with
    | enters _ hu => exact absurd hs ((hu sender env hr.brings).2 w hw)
    | crosses e m _ hhead _ hbr _ =>
      -- the echo is left out for the link that the message came over
      obtain ⟨rfl, he⟩ := hbr sender env hr.brings
      obtain rfl := he w hw hs
      exact h.sent hhead

theorem Sane.brought (h : Sane N pb s) (ha : Arrival N pb s t b ev) {sender : Option String}
    {env : Envelope} (hb : ev.Brings (s.broker b) sender env) :
    (∃ b', env ∈ s.routed pb b') ∨ s.Unused env.uuid := by
  cases ha with
  | enters _ hu => exact Or.inr (hu sender env hb).1
  | crosses e m _ hhead _ hbr _ =>
    obtain ⟨rfl, -⟩ := hbr sender env hb
    exact Or.inl ⟨_, h.sent hhead⟩

theorem Sane.visit_step (h : Sane N pb s) (hm : Moved N pb s t) (ha : Arrival N pb s t b ev) :
    Flooding.Step N.graph Envelope.IsData (s.flooding N pb)
      ((t.activate N pb b ev).flooding N pb) := by
  have hact := h.standing.activation b ev
  rcases hact.silent_or_routed with ⟨-, hacc, hp, hold⟩ | ⟨sender, env, ids, hr⟩
  · have hsil : (t.activate N pb b ev).flooding N pb = t.flooding N pb := by
      rw [← hm.broker] at hact hacc hp
      exact flooding_silent hact hacc hp
    rw [hsil]
    cases ha with
    | enters hsame =>
      rw [hsame]
      exact .idle
    | crosses e m hdst hhead hrem hbr hdata =>
      refine .consume e m hrem fun hl => ?_
      obtain ⟨sender, hb⟩ := hdata hl
      -- a duplicate has been routed here before
      rw [hdst]
      exact h.kept.known _ b m (h.sent hhead) (hold sender m hb)
  · have hacc := h.accepts ha hr
    cases ha with
    | enters hsame hu =>
      rw [flooding_activate_congr hm.broker hsame]
      refine .inject b env (fun b' hb' => ?_) hacc
      exact (hu sender env hr.brings).1.1 b' (h.kept.remembered b' env hb')
    | crosses e m hdst hhead hrem hbr hdata =>
      obtain ⟨rfl, -⟩ := hbr sender env hr.brings
      obtain ⟨rest, hhead⟩ := hhead
      subst hdst
      exact .deliver _ e env rest hhead hacc (removes_activate hrem hm.broker)

theorem Moved.activate_broker (hm : Moved N pb s t) : (t.activate N pb b ev).broker =
    Function.update s.broker b ((s.broker b).step pb ev).1 := by
  simp only [activate, hm.broker]

theorem Moved.mem_routed_activate (hm : Moved N pb s t) (b' : ι) (x : Envelope) :
    x ∈ (t.activate N pb b ev).routed pb b' ↔ x ∈ s.routed pb b' ∨
      (b' = b ∧ Effect.accepted pb ((s.broker b).step pb ev).2 = some x) := by
  rw [routed_activate, hm.routed, hm.broker, List.mem_append]
  split_ifs with hb
  · simp [hb]
  · simp [Ne.symm hb]

theorem Sane.kept_visit (h : Sane N pb s) (hm : Moved N pb s t) (ha : Arrival N pb s t b ev)
    (he : (s.broker b).window.seen ⊆ ((s.broker b).step pb ev).1.window.seen) :
    Kept ((t.activate N pb b ev).routed pb) fun b' =>
      ((t.activate N pb b ev).broker b').window.seen := by
  have hseen : ∀ b' u, u ∈ ((t.activate N pb b ev).broker b').window.seen ↔
      if b' = b then u ∈ ((s.broker b).step pb ev).1.window.seen
      else u ∈ (s.broker b').window.seen := by
    intro b' u
    rw [hm.activate_broker, Function.update_apply]
    split_ifs <;> rfl
  have hact := h.standing.activation b ev
  rcases hact.silent_or_routed with ⟨hw, hacc, -, -⟩ | ⟨sender, env, ids, hr⟩
  · -- nothing is routed and nothing is remembered
    have hr : (t.activate N pb b ev).routed pb = s.routed pb := by
      funext b'
      rw [routed_activate, hm.routed, hm.broker, hacc]
      split_ifs <;> simp
    have hs : (fun b' => ((t.activate N pb b ev).broker b').window.seen) =
        fun b' => (s.broker b').window.seen := by
      funext b'
      ext u
      rw [hseen, hw]
      split_ifs with hb
      · rw [hb]
      · rfl
    rw [hr, hs]
    exact h.kept
  · refine h.kept.accept (b := b) (fun b' x => ?_) (fun b' u => ?_)
      ((h.brought ha hr.brings).imp_right And.left)
    · rw [hm.mem_routed_activate, hr.effects_eq, Effect.accepted_routing, Option.some.injEq,
        eq_comm (a := env)]
    · rw [hseen, hr.window, h.standing.mem_check (hr.window ▸ he)]
      split_ifs with hb
      · simp [hb]
      · simp [hb]

theorem Sane.visit (h : Sane N pb s) (hm : Moved N pb s t) (hv : Visit N pb s b ev)
    (ha : Arrival N pb s t b ev)
    (he : (s.broker b).window.seen ⊆ ((s.broker b).step pb ev).1.window.seen) :
    Sane N pb (t.activate N pb b ev) := by
  have hact := h.standing.activation b ev
  refine ⟨?_, ?_, h.kept_visit hm ha he, h.sound.step (h.visit_step hm ha), ?_, ?_⟩
  · rw [hm.activate_broker]
    exact h.standing.activate hv
  · refine hm.lawful.activate ?_ ?_
    · rw [hm.broker]
      exact h.standing
    · rw [hm.broker]
      exact hv.keys
  · intro b' env hx
    rcases (hm.mem_routed_activate b' env).mp hx with hx | ⟨-, hx⟩
    · exact h.tracked b' env hx
    · obtain ⟨sender, ids, hr⟩ := hact.routed_of_accepted hx
      simpa [Envelope.tracked] using hr.brings.uuid_ne
  · intro b' c
    rw [deliveries_activate, routed_activate, hm.broker, hm.routed, hm.deliveries,
      List.filter_append]
    refine (h.delivered b' c).append ?_
    split_ifs
    · exact hact.delivered_sublist c
    · exact List.Sublist.refl _

theorem Sane.moves (h : Sane N pb s) (hm : Moved N pb s t)
    (hs : Flooding.Step N.graph Envelope.IsData (s.flooding N pb) (t.flooding N pb)) :
    Sane N pb t := by
  refine ⟨?_, hm.lawful, ?_, h.sound.step hs, ?_, ?_⟩
  · rw [hm.broker]
    exact h.standing
  · rw [hm.routed, hm.broker]
    exact h.kept
  · rw [hm.routed]
    exact h.tracked
  · rw [hm.routed, hm.deliveries]
    exact h.delivered

variable [DecidableEq κ] {e : Event ι ω κ}

/-- One step of an established mesh is one step of the flood. -/
theorem Sane.step (h : Sane N pb s) (he : FixedStep N pb s e s') : Sane N pb s' ∧
    Flooding.Step N.graph Envelope.IsData (s.flooding N pb) (s'.flooding N pb) := by
  have hevict := he.1.evictions s' he.2
  cases step_fires h.standing h.lawful he with
  | moves hm _ hf =>
    have hs : Flooding.Step N.graph Envelope.IsData (s.flooding N pb) (s'.flooding N pb) := by
      rw [hf]
      exact .idle
    exact ⟨h.moves hm hs, hs⟩
  | keeps e m hm _ hrem hd =>
    have hs : Flooding.Step N.graph Envelope.IsData (s.flooding N pb) (s'.flooding N pb) :=
      .consume e m hrem fun hl => absurd hl hd
    exact ⟨h.moves hm hs, hs⟩
  | visits b ev hm hv ha _ =>
    refine ⟨h.visit hm hv ha ?_, h.visit_step hm ha⟩
    have hb := hevict b
    rwa [hm.activate_broker, Function.update_self] at hb

theorem sane_of_run {s₀ : Mesh ι ω κ} {tr : List (Event ι ω κ × Mesh ι ω κ)}
    (h₀ : s₀.Established N pb) (hr : Run (FixedStep N pb) s₀ tr s) : Sane N pb s :=
  hr.invariant (P := Sane N pb) h₀.sane fun _ _ _ h he => (h.step he).1

theorem Fires.grows (h : Fires N pb s s') :
    (∀ b c, s.deliveries pb b c ⊆ s'.deliveries pb b c) ∧ ∀ k, s.taken k ⊆ s'.taken k := by
  cases h with
  | moves hm ht _ =>
    rw [hm.deliveries, ht]
    exact ⟨fun _ _ => List.Subset.refl _, fun _ => List.Subset.refl _⟩
  | keeps _ _ hm ht _ _ =>
    rw [hm.deliveries, ht]
    exact ⟨fun _ _ => List.Subset.refl _, fun _ => List.Subset.refl _⟩
  | @visits t b ev hm hv ha hrec =>
    refine ⟨fun b' c => ?_, fun k => ?_⟩
    · rw [deliveries_activate, hm.deliveries]
      exact List.subset_append_left _ _
    · change s.taken k ⊆ t.taken k
      cases hrec with
      | other ht => exact ht ▸ List.Subset.refl _
      | client k' fresh now env _ _ _ ht =>
        rw [ht]
        split_ifs
        · exact List.Subset.refl _
        · exact fun x hx => mem_push.mpr (Or.inl hx)

/-- A client that subscribes to a message when its broker routes it is sent the message, unless it
published it. -/
theorem Sane.delivered_step (h : Sane N pb s) (hf : Fires N pb s s') {k : κ} {env : Envelope}
    (hold : env ∉ s.routed pb (N.home (.inr k))) (hnew : env ∈ s'.routed pb (N.home (.inr k)))
    (hd : env.IsData)
    (hsub : (s.broker (N.home (.inr k))).Subscribed (N.identity (.inr k)) env.header.topic ∨
      (s.broker (N.home (.inr k))).Subscribed (N.identity (.inr k)) "") :
    env ∈ s'.deliveries pb (N.home (.inr k)) (N.identity (.inr k)) ∨
      env ∈ (s'.taken k).map Prod.snd := by
  cases hf with
  | moves hm _ _ =>
    rw [hm.routed] at hnew
    exact absurd hnew hold
  | keeps _ _ hm _ _ _ =>
    rw [hm.routed] at hnew
    exact absurd hnew hold
  | @visits t b ev hm hv ha hrec =>
    obtain ⟨rfl, hacc⟩ := ((hm.mem_routed_activate _ env).mp hnew).resolve_left hold
    have hwf := h.standing.wellFormed (N.home (.inr k))
    obtain ⟨sender, ids, hr⟩ := (h.standing.activation _ ev).routed_of_accepted hacc
    by_cases hs : sender = some (N.identity (.inr k))
    · -- the client that its broker accepted the message from is the one that published it
      right
      subst hs
      cases hrec with
      | other _ hsender => exact absurd hr.brings.sender_eq (hsender k rfl)
      | client k' fresh now env₀ hh hev _ ht =>
        subst hev
        have hid := Option.some.inj hr.brings.sender_eq
        obtain rfl : k' = k := Sum.inr_injective (N.identity_inj _ _ hh hid)
        cases hr.brings
        rw [Envelope.IsData, Broker.stamped_key] at hd
        rw [hd] at ht
        change _ ∈ (t.taken k').map Prod.snd
        rw [ht]
        exact List.mem_map.mpr ⟨_, mem_push.mpr (Or.inr ⟨rfl, rfl⟩), rfl⟩
    · left
      have hmem : N.identity (.inr k) ∈ ids := by
        refine (hr.recipients _).mpr ⟨?_, hsub, hs⟩
        rcases hsub with hsub | hsub
        · exact hwf.known_of_subscribed hsub
        · exact hwf.known_of_subscribed hsub
      rw [deliveries_activate, if_pos rfl, hm.broker, hr.effects_eq,
        Effect.delivered_routing hr.nodup, if_pos hmem]
      exact List.mem_append_right _ List.mem_cons_self

/-- A client that has been subscribed throughout has been sent what its broker routed. -/
theorem delivered_of_run {s₀ : Mesh ι ω κ} {tr : List (Event ι ω κ × Mesh ι ω κ)}
    (h₀ : s₀.Established N pb) (hr : Run (FixedStep N pb) s₀ tr s) {k : κ} {env : Envelope}
    (henv : env ∈ s.routed pb (N.home (.inr k))) (hd : env.IsData)
    (hsub : ∀ u ∈ visited s₀ tr,
      (u.broker (N.home (.inr k))).Subscribed (N.identity (.inr k)) env.header.topic ∨
        (u.broker (N.home (.inr k))).Subscribed (N.identity (.inr k)) "")
    (hpub : env ∉ (s.taken k).map Prod.snd) :
    env ∈ s.deliveries pb (N.home (.inr k)) (N.identity (.inr k)) := by
  revert henv hsub hpub
  refine hr.traceInvariant (P := fun tr s => env ∈ s.routed pb (N.home (.inr k)) →
    (∀ u ∈ visited s₀ tr,
      (u.broker (N.home (.inr k))).Subscribed (N.identity (.inr k)) env.header.topic ∨
        (u.broker (N.home (.inr k))).Subscribed (N.identity (.inr k)) "") →
    env ∉ (s.taken k).map Prod.snd →
    env ∈ s.deliveries pb (N.home (.inr k)) (N.identity (.inr k))) ?_ ?_
  · intro henv
    rw [h₀.2] at henv
    cases henv
  · intro tr u e u' hr ih he henv hsub hpub
    have hsane := sane_of_run h₀ hr
    have hf := step_fires hsane.standing hsane.lawful he
    rw [visited_snoc] at hsub
    by_cases hold : env ∈ u.routed pb (N.home (.inr k))
    · refine hf.grows.1 _ _ (ih hold (fun v hv => hsub v (List.mem_append_left _ hv)) fun hp => ?_)
      exact hpub (List.map_subset Prod.snd (hf.grows.2 k) hp)
    · have hu := hsub u (List.mem_append_left _ hr.last_mem_visited)
      exact (hsane.delivered_step hf hold henv hd hu).resolve_right hpub

theorem filter_uuid_eq {l : List Envelope} {env : Envelope} (hn : l.Nodup) (hm : env ∈ l)
    (hu : ∀ x ∈ l, x.uuid = env.uuid → x = env) :
    l.filter (fun x => x.uuid == env.uuid) = [env] := by
  have hf : l.filter (fun x => x.uuid == env.uuid) = l.filter (· == env) := by
    refine List.filter_congr fun x hx => ?_
    rw [Bool.eq_iff_iff, beq_iff_eq, beq_iff_eq]
    exact ⟨hu x hx, fun h => h ▸ rfl⟩
  rw [hf, List.filter_beq, List.count_eq_one_of_mem hn hm]
  rfl

/-- Once no message is in flight, a data message that one broker routed has been routed once by
every broker, and every client that subscribed throughout has been sent it once, except for the one
that published it. -/
theorem delivered_everywhere {s₀ : Mesh ι ω κ} {tr : List (Event ι ω κ × Mesh ι ω κ)}
    (hc : N.Connected) (h₀ : s₀.Established N pb) (hr : Run (FixedStep N pb) s₀ tr s)
    (hq : s.Quiescent N pb) {b : ι} {env : Envelope} (henv : env ∈ s.routed pb b)
    (hd : env.IsData) :
    (∀ b', (s.routed pb b').filter (fun x => x.uuid == env.uuid) = [env]) ∧
    ∀ k, (∀ u ∈ visited s₀ tr,
        (u.broker (N.home (.inr k))).Subscribed (N.identity (.inr k)) env.header.topic ∨
          (u.broker (N.home (.inr k))).Subscribed (N.identity (.inr k)) "") →
      env ∉ (s.taken k).map Prod.snd →
      (s.deliveries pb (N.home (.inr k)) (N.identity (.inr k))).filter
        (fun x => x.uuid == env.uuid) = [env] := by
  have h := sane_of_run h₀ hr
  have hmem : ∀ b', env ∈ s.routed pb b' := by
    intro b'
    have hone := h.sound.accepted_once hq (hc.reaches b b') hd henv
    exact List.count_pos_iff.mp (hone ▸ Nat.one_pos)
  have hrouted : ∀ b', (s.routed pb b').filter (fun x => x.uuid == env.uuid) = [env] := by
    intro b'
    refine filter_uuid_eq (h.sound.nodup b') (hmem b') fun x hx hu => ?_
    exact h.kept.unique b' b x hx env henv hu
  refine ⟨hrouted, fun k hsub hpub => ?_⟩
  have hdel := delivered_of_run h₀ hr (hmem _) hd hsub hpub
  -- what is sent with this uuid is a sublist of what is routed with it
  have hsubl := (h.delivered (N.home (.inr k)) (N.identity (.inr k))).filter
    fun x => x.uuid == env.uuid
  rw [hrouted, List.filter_filter] at hsubl
  have hf : (s.deliveries pb (N.home (.inr k)) (N.identity (.inr k))).filter
      (fun x => x.uuid == env.uuid && x.tracked) =
      (s.deliveries pb (N.home (.inr k)) (N.identity (.inr k))).filter
        fun x => x.uuid == env.uuid := by
    refine List.filter_congr fun x _ => ?_
    have htr := h.tracked b env henv
    by_cases hu : x.uuid = env.uuid
    · rw [Envelope.tracked, hu]
      simpa [Envelope.tracked] using htr
    · simp [hu]
  rw [hf] at hsubl
  rcases List.sublist_singleton.mp hsubl with hnil | hone
  · have hx := List.filter_eq_nil_iff.mp hnil env hdel
    exact absurd (beq_self_eq_true _) hx
  · exact hone

def joined : Mesh Bool Bool Bool :=
  (exec (step mutualDial BrokerProto.proto3) started
    (linking false ++ linking true ++ joining)).get (by decide +kernel)

/-- The two brokers that dialed each other, with their links up and their clients known. -/
def linkedUp : Mesh Bool Bool Bool := { broker := joined.broker }

theorem linkedUp_established : linkedUp.Established mutualDial BrokerProto.proto3 := by
  have hup : (∀ b w, w ∈ (joined.broker b).links ↔ mutualDial.owner w = b) ∧
      (∀ b, (joined.broker b).links.Nodup) ∧
      ∀ w, (joined.broker (mutualDial.home (.inl w))).Subscribed
        (mutualDial.identity (.inl w)) "" := by
    decide +kernel
  refine ⟨⟨fun b => ?_, hup.1, hup.2.1, hup.2.2⟩, rfl⟩
  have hi : started.Initial := ⟨fun b => ⟨_, 0, rfl⟩, rfl⟩
  have he : exec (step mutualDial BrokerProto.proto3) started
      (linking false ++ linking true ++ joining) = some joined := by simp [joined]
  exact ⟨_, history_of_reachable ⟨started, _, hi, exec_run he⟩ b⟩

theorem mutualDial_connected : mutualDial.Connected := by
  have hne : ∀ b, Relation.EqvGen mutualDial.Linked b (!b) := fun b => .rel _ _ ⟨b, rfl, rfl⟩
  intro a b
  by_cases hab : a = b
  · subst hab
    exact .refl a
  · have hb : b = !a := by
      revert a b
      decide
    rw [hb]
    exact hne a

/-- The message is published, crosses one link, comes back over the other and ends there. -/
def circulating : List (Event Bool Bool Bool) :=
  publishing ++ [.sendOutbound (.inl true), .take (.inl true) newsUuid 0]

def circulated : Mesh Bool Bool Bool :=
  (exec (step mutualDial BrokerProto.proto3) linkedUp circulating).get (by decide +kernel)

def newsRouted : Envelope where
  header :=
    { handlerKey := "news", topic := "news", messageUuid := newsUuid.val,
      originBrokerId := "broker-0" }
  payload := [1, 2]

theorem circulated_run : Run (FixedStep mutualDial BrokerProto.proto3) linkedUp
    (trace (step mutualDial BrokerProto.proto3) linkedUp circulating) circulated :=
  exec_guarded (by decide +kernel) (by simp [circulated])

theorem delivered_everywhere_news :
    (∀ b, (circulated.routed BrokerProto.proto3 b).filter
      (fun x => x.uuid == newsUuid.val) = [newsRouted]) ∧
    (circulated.deliveries BrokerProto.proto3 true "client-b").filter
      (fun x => x.uuid == newsUuid.val) = [newsRouted] := by
  -- evaluated together, since each evaluation goes through the whole run
  have hend : ((∀ w, circulated.pending mutualDial BrokerProto.proto3 (.up w) = []) ∧
      ∀ w, circulated.pending mutualDial BrokerProto.proto3 (.down w) = []) ∧
      newsRouted ∈ circulated.routed BrokerProto.proto3 false ∧
      newsRouted ∉ (circulated.taken true).map Prod.snd := by
    decide +kernel
  obtain ⟨hpending, hm, hpub⟩ := hend
  have hq : circulated.Quiescent mutualDial BrokerProto.proto3 := by
    intro e
    cases e with
    | up w => exact hpending.1 w
    | down w => exact hpending.2 w
  have h := delivered_everywhere mutualDial_connected linkedUp_established circulated_run hq hm rfl
  exact ⟨h.1, h.2 true (by decide +kernel) hpub⟩

end Mesh

end ZmqPubSub
