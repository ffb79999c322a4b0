import ZmqPubSub.Bus
import ZmqPubSub.MeshIntegrity
import ZmqPubSub.MeshOrder

/-!
For its clients the brokers, their links and the flood between them do not exist: an established
mesh whose clients keep their subscriptions is one bus. Each broker has routed an initial part of
what a client published, and a client has been sent what its broker routed and it wants.
-/

namespace ZmqPubSub

open Containers TransitionSystem

namespace Mesh

variable {ι ω κ : Type*} [DecidableEq ι]

section

variable (N : Network ι ω κ) (pb : Protobuf) (interests : κ → List String) (s : Mesh ι ω κ)

/-- The data messages of a client, with the identities that its broker gave them. -/
def publications (k : κ) : List Envelope := (s.taken k).map Prod.snd

def received (k : κ) : List Envelope := s.deliveries pb (N.home (.inr k)) (N.identity (.inr k))

def receivedFrom (j k : κ) : List Envelope :=
  (s.received N pb k).filter fun env => env ∈ s.publications j

def routedFrom (b : ι) (j : κ) : List Envelope :=
  (s.routed pb b).filter fun env => env ∈ s.publications j

def bus : Bus.State κ Envelope := ⟨s.publications, s.receivedFrom N pb⟩

/-- Every client is known to its broker and subscribed to its topics. -/
structure Settled : Prop where
  known : ∀ k, N.identity (.inr k) ∈ (s.broker (N.home (.inr k))).clients
  topics : ∀ k t, (s.broker (N.home (.inr k))).Subscribed (N.identity (.inr k)) t ↔ t ∈ interests k

instance [Fintype κ] : Decidable (s.Settled N interests) :=
  decidable_of_iff
    ((∀ k, N.identity (.inr k) ∈ (s.broker (N.home (.inr k))).clients) ∧
      ∀ k, ((s.broker (N.home (.inr k))).subscriptions.subscriptionsOf
          (N.identity (.inr k))).getD [] ⊆ interests k ∧
        ∀ t ∈ interests k, (s.broker (N.home (.inr k))).Subscribed (N.identity (.inr k)) t)
    ⟨fun ⟨hk, ht⟩ => ⟨hk, fun k t => ⟨fun hs => (ht k).1 hs, (ht k).2 t⟩⟩,
      fun ⟨hk, ht⟩ => ⟨hk, fun k => ⟨fun t => (ht k t).mp, fun t => (ht k t).mpr⟩⟩⟩

end

/-- A client wants the topics it subscribes to, or everything. -/
def wants (interests : κ → List String) (k : κ) (env : Envelope) : Bool :=
  env.header.topic ∈ interests k || "" ∈ interests k

/-- Messages of clients enter the mesh at their brokers, no two of them are the same, and a client
has been sent the data that its broker routed and it wants, except for its own. -/
structure Shared (N : Network ι ω κ) (pb : Protobuf) (interests : κ → List String)
    (s : Mesh ι ω κ) : Prop where
  home : ∀ k, ∀ env ∈ s.publications k, env ∈ s.routed pb (N.home (.inr k))
  nodup : ∀ k, (s.publications k).Nodup
  apart : ∀ j k, ∀ env ∈ s.publications j, env ∈ s.publications k → j = k
  stamped : ∀ k, ∀ x ∈ s.taken k, ∃ fresh, x.2 = (s.broker (N.home (.inr k))).stamped fresh x.1
  received : ∀ k,
    (s.received N pb k).filter (fun env => !Keys.isControlMessage env.key && env.tracked) =
      (s.routed pb (N.home (.inr k))).filter fun env =>
        !Keys.isControlMessage env.key && (wants interests k env && !(env ∈ s.publications k))

variable {N : Network ι ω κ} {pb : Protobuf} {interests : κ → List String} {s s' t : Mesh ι ω κ}

theorem Established.shared (h : s.Established N pb) : Shared N pb interests s := by
  rw [h.2]
  exact ⟨by simp [publications], by simp [publications], by simp [publications], by simp,
    fun k => rfl⟩

variable [DecidableEq ω]

theorem Sane.accepted_client (h : Sane N pb s) (hset : s.Settled N interests) {k : κ} {fresh : Uuid}
    {now : Time} {env : Envelope} (hdata : Keys.isControlMessage env.key = false)
    (hu : s.Unused ((s.broker (N.home (.inr k))).stamped fresh env).uuid) :
    Effect.accepted pb ((s.broker (N.home (.inr k))).step pb
      (.fromRouter fresh now env (N.identity (.inr k)))).2 =
      some ((s.broker (N.home (.inr k))).stamped fresh env) := by
  have hb := @Broker.Event.Brings.fromRouter ω (s.broker (N.home (.inr k))) fresh now env
    (N.identity (.inr k)) (.inr ⟨rfl, hset.known k, Broker.consumedLocally_of_data hdata⟩)
  cases h.standing.activation (N.home (.inr k))
    (.fromRouter fresh now env (N.identity (.inr k))) with
  | quiet hquiet => exact absurd hb (hquiet _ _)
  | duplicate sender env' hb' hold =>
    rw [← (hb.unique hb').2] at hold
    exact absurd hold (hu.1 _)
  | new sender env' ids hr => rw [hr.effects_eq, Effect.accepted_routing, (hb.unique hr.brings).2]

/-- What holds throughout a run whose clients keep their subscriptions. -/
structure BusLike (N : Network ι ω κ) (pb : Protobuf) (interests : κ → List String)
    (s : Mesh ι ω κ) : Prop where
  sane : Sane N pb s
  shared : Shared N pb interests s
  ordered : ∀ k, Ordered N pb s k
  inOrder : ∀ k, InOrder pb s k

theorem Established.busLike (h : s.Established N pb) : BusLike N pb interests s := by
  refine ⟨h.sane, h.shared, fun k => ?_, fun k => ?_⟩
  · rw [h.2]
    exact ⟨by simp, by simp, .nil⟩
  · rw [h.2]
    exact ⟨by simp, by simp, rfl⟩

theorem BusLike.routedFrom_isPrefix (h : BusLike N pb interests s) (b : ι) (j : κ) :
    s.routedFrom pb b j <+: s.publications j := by
  refine Bus.filter_isPrefix_of_noGaps (h.sane.sound.nodup b) (h.shared.nodup j) ?_
  rw [publications, List.pairwise_map]
  refine (h.ordered j).pairs.imp_of_mem fun {x y} hx _ hp => ?_
  rcases hp with hb | hn
  · exact hb.nodes b
  · exact absurd (h.shared.home j _ (List.mem_map_of_mem hx)) (hn _)

theorem BusLike.routedFrom_eq (h : BusLike N pb interests s) (hc : N.Connected)
    (hq : s.Quiescent N pb) (b : ι) (j : κ) : s.routedFrom pb b j = s.publications j := by
  refine Bus.eq_of_isPrefix (h.routedFrom_isPrefix b j) (h.shared.nodup j) fun env henv => ?_
  have hhome := h.shared.home j env henv
  obtain ⟨x, hx, rfl⟩ := List.mem_map.mp henv
  have hone := h.sane.sound.accepted_once hq (hc.reaches _ b) ((h.ordered j).data x hx).1 hhome
  have hb : x.2 ∈ s.routed pb b := List.count_pos_iff.mp (hone ▸ Nat.one_pos)
  exact List.mem_filter.mpr ⟨hb, by simpa using henv⟩

variable [DecidableEq κ] {e : Event ι ω κ}

theorem Shared.home_step (hsh : Shared N pb interests s) (h : Sane N pb s)
    (hset : s.Settled N interests) (hf : Fires N pb s s') (k : κ) :
    ∀ env ∈ s'.publications k, env ∈ s'.routed pb (N.home (.inr k)) := by
  intro env henv
  by_cases hold : env ∈ s.publications k
  · exact hf.routed_mono (hsh.home k env hold)
  · cases hf with
    | moves _ ht _ =>
      rw [publications, ht] at henv
      exact absurd henv hold
    | keeps _ _ _ ht _ _ =>
      rw [publications, ht] at henv
      exact absurd henv hold
    | @visits t b ev hm hv ha hrec =>
      change env ∈ (t.taken k).map Prod.snd at henv
      cases hrec with
      | other ht _ =>
        rw [ht] at henv
        exact absurd henv hold
      | client k' fresh now msg hh hev hu ht =>
        subst hh hev
        rw [ht] at henv
        split_ifs at henv with hc
        · exact absurd henv hold
        · obtain ⟨x, hx, rfl⟩ := List.mem_map.mp henv
          rcases mem_push.mp hx with hx | ⟨rfl, rfl⟩
          · exact absurd (List.mem_map_of_mem hx) hold
          · rw [hm.mem_routed_activate]
            exact .inr ⟨rfl, h.accepted_client hset (Bool.eq_false_iff.mpr hc) hu⟩

/-- A step publishes at most one message, and a new one. -/
theorem Sane.publications_step (h : Sane N pb s) (hf : Fires N pb s s') :
    s'.publications = s.publications ∨ ∃ k m, s'.publications = push s.publications k m ∧
      (∀ i, m ∉ s.publications i) ∧ ∀ b, m ∉ s.routed pb b := by
  rcases h.taken_step hf with ht | ⟨k, x, ht, -, hu, -⟩
  · left
    funext i
    rw [publications, publications, ht]
  · refine .inr ⟨k, x.2, ?_, fun i hm => ?_, fun b hm => hu.1 b (h.kept.remembered b x.2 hm)⟩
    · funext i
      rw [publications, ht, push_apply, push_apply]
      split_ifs <;> simp [publications]
    · obtain ⟨y, hy, he⟩ := List.mem_map.mp hm
      exact hu.2 i y hy (congrArg Envelope.uuid he)

theorem Sane.mem_publications_step (h : Sane N pb s) (hf : Fires N pb s s') {b : ι} {env : Envelope}
    (henv : env ∈ s.routed pb b) (k : κ) : env ∈ s'.publications k ↔ env ∈ s.publications k := by
  rcases h.publications_step hf with hp | ⟨k', m, hp, -, hm⟩
  · rw [hp]
  · rw [hp, mem_push, or_iff_left_iff_imp]
    rintro ⟨-, rfl⟩
    exact absurd henv (hm b)

/-- The echo rule leaves out the client that published the message. -/
theorem Shared.echo_iff (hsh : Shared N pb interests s) (h : Sane N pb s) {k : κ}
    {ev : Broker.Event ω} (hrec : Records N s t (N.home (.inr k)) ev)
    {w : HistoryWindow.Window String}
    {sender : Option String} {env : Envelope} {ids : List String}
    (hr : Broker.Routed pb (s.broker (N.home (.inr k))) ev
      ((s.broker (N.home (.inr k))).step pb ev).2 w sender env ids)
    (hdata : Keys.isControlMessage env.key = false) :
    sender = some (N.identity (.inr k)) ↔ env ∈ t.publications k := by
  have hold : env ∉ s.publications k := fun hm =>
    hr.fresh (h.kept.remembered _ env (hsh.home k env hm))
  cases hrec with
  | other ht hsender =>
    have hpub : t.publications k = s.publications k := by rw [publications, publications, ht]
    rw [hpub, iff_false_right hold]
    rintro rfl
    exact hsender k rfl hr.brings.sender_eq
  | client k' fresh now msg hh hev hu ht =>
    subst hev
    cases hr.brings with
    | fromRouter =>
      rw [Broker.stamped_key] at hdata
      have hpub : t.publications k = s.publications k ++
          if k = k' then [(s.broker (N.home (.inr k))).stamped fresh msg] else [] := by
        rw [publications, publications, ht, hdata, if_neg Bool.false_ne_true, push_apply]
        split_ifs <;> simp
      rw [hpub, List.mem_append, or_iff_right hold, Option.some.injEq]
      split_ifs with hk
      · simp [hk]
      · rw [iff_false_right List.not_mem_nil]
        exact fun hid => hk (Sum.inr_injective (N.identity_inj _ _ hh hid)).symm

theorem Shared.received_visit (hsh : Shared N pb interests s) (h : Sane N pb s)
    (hset : s.Settled N interests) {k : κ} {ev : Broker.Event ω}
    (hrec : Records N s t (N.home (.inr k)) ev) :
    (Effect.delivered pb (N.identity (.inr k)) ((s.broker (N.home (.inr k))).step pb ev).2).filter
        (fun env => !Keys.isControlMessage env.key && env.tracked) =
      (Effect.accepted pb ((s.broker (N.home (.inr k))).step pb ev).2).toList.filter fun env =>
        !Keys.isControlMessage env.key && (wants interests k env && !(env ∈ t.publications k)) := by
  have hact := h.standing.activation (N.home (.inr k)) ev
  rcases hact.silent_or_routed with ⟨-, hacc, -, -⟩ | ⟨sender, env, ids, hr⟩
  · have hsub := hact.delivered_sublist (N.identity (.inr k))
    rw [hacc] at hsub
    have hnil : (Effect.delivered pb (N.identity (.inr k))
        ((s.broker (N.home (.inr k))).step pb ev).2).filter Envelope.tracked = [] :=
      List.sublist_nil.mp hsub
    rw [hacc, ← List.filter_filter, hnil]
    rfl
  · rw [hr.effects_eq, Effect.delivered_routing hr.nodup, Effect.accepted_routing,
      Option.toList_some]
    have ht : env.tracked = true := by simpa [Envelope.tracked] using hr.brings.uuid_ne
    cases hdata : Keys.isControlMessage env.key with
    | true => split_ifs <;> simp [hdata]
    | false =>
      have hids : N.identity (.inr k) ∈ ids ↔
          wants interests k env = true ∧ env ∉ t.publications k := by
        rw [hr.recipients, hset.topics, hset.topics, and_iff_right (hset.known k), Ne,
          hsh.echo_iff h hrec hr hdata]
        simp [wants]
      by_cases hi : N.identity (.inr k) ∈ ids
      · simp [hi, hdata, ht, hids.mp hi]
      · have hno := mt hids.mpr hi
        rw [if_neg hi, List.filter_nil, eq_comm, List.filter_eq_nil_iff]
        simpa [hdata] using hno

theorem Shared.received_step (hsh : Shared N pb interests s) (h : Sane N pb s)
    (hset : s.Settled N interests) (hf : Fires N pb s s') (k : κ) :
    (s'.received N pb k).filter (fun env => !Keys.isControlMessage env.key && env.tracked) =
      (s'.routed pb (N.home (.inr k))).filter fun env =>
        !Keys.isControlMessage env.key &&
          (wants interests k env && !(env ∈ s'.publications k)) := by
  have hold : (s.routed pb (N.home (.inr k))).filter (fun env => !Keys.isControlMessage env.key &&
        (wants interests k env && !(env ∈ s'.publications k))) =
      (s.received N pb k).filter (fun env => !Keys.isControlMessage env.key && env.tracked) := by
    rw [hsh.received k]
    refine List.filter_congr fun env henv => ?_
    simp only [h.mem_publications_step hf henv k]
  cases hf with
  | moves hm _ _ => rw [Mesh.received, hm.deliveries, hm.routed, hold, Mesh.received]
  | keeps _ _ hm _ _ _ => rw [Mesh.received, hm.deliveries, hm.routed, hold, Mesh.received]
  | @visits t b ev hm hv ha hrec =>
    rw [Mesh.received, deliveries_activate, routed_activate, hm.deliveries, hm.routed, hm.broker,
      List.filter_append, List.filter_append, hold, Mesh.received]
    congr 1
    split_ifs with hb
    · subst hb
      have hnew := hsh.received_visit h hset hrec
      exact hnew
    · rfl

theorem Fires.stamped (hf : Fires N pb s s') (b : ι) (fresh : Uuid) (env : Envelope) :
    (s'.broker b).stamped fresh env = (s.broker b).stamped fresh env := by
  refine Broker.stamped_congr ?_ fresh env
  cases hf with
  | moves hm _ _ => rw [hm.broker]
  | keeps _ _ hm _ _ _ => rw [hm.broker]
  | visits b' ev hm hv ha hrec =>
    rw [hm.activate_broker, Function.update_apply]
    split_ifs with hb
    · rw [hb]
      exact Broker.step_brokerId ev
    · rfl

theorem Shared.stamped_step (hsh : Shared N pb interests s) (hf : Fires N pb s s') (k : κ) :
    ∀ x ∈ s'.taken k, ∃ fresh, x.2 = (s'.broker (N.home (.inr k))).stamped fresh x.1 := by
  intro x hx
  simp only [hf.stamped]
  by_cases hold : x ∈ s.taken k
  · exact hsh.stamped k x hold
  · cases hf with
    | moves _ ht _ => exact absurd (ht ▸ hx) hold
    | keeps _ _ _ ht _ _ => exact absurd (ht ▸ hx) hold
    | @visits t b ev hm hv ha hrec =>
      change x ∈ t.taken k at hx
      cases hrec with
      | other ht _ => exact absurd (ht ▸ hx) hold
      | client k' fresh now msg hh hev hu ht =>
        rw [ht] at hx
        split_ifs at hx
        · exact absurd hx hold
        · obtain ⟨rfl, rfl⟩ := (mem_push.mp hx).resolve_left hold
          rw [hh]
          exact ⟨fresh, rfl⟩

theorem Shared.step (hsh : Shared N pb interests s) (h : Sane N pb s)
    (hset : s.Settled N interests) (hf : Fires N pb s s') : Shared N pb interests s' := by
  refine ⟨hsh.home_step h hset hf, ?_, ?_, hsh.stamped_step hf, hsh.received_step h hset hf⟩
  · intro k
    rcases h.publications_step hf with hp | ⟨k', m, hp, hm, -⟩
    · rw [hp]
      exact hsh.nodup k
    · rw [hp, push_apply]
      split_ifs
      · rw [← List.concat_eq_append]
        exact (hsh.nodup k).concat (hm k)
      · exact hsh.nodup k
  · intro j k env hj hk
    rcases h.publications_step hf with hp | ⟨k', m, hp, hm, -⟩
    · rw [hp] at hj hk
      exact hsh.apart j k env hj hk
    · -- the new message is nobody else's
      rw [hp, mem_push] at hj hk
      rcases hj with hj | ⟨rfl, rfl⟩
      · rcases hk with hk | ⟨-, rfl⟩
        · exact hsh.apart j k env hj hk
        · exact absurd hj (hm j)
      · rcases hk with hk | ⟨rfl, -⟩
        · exact absurd hk (hm k)
        · rfl

theorem BusLike.step (h : BusLike N pb interests s) (hset : s.Settled N interests)
    (he : FixedStep N pb s e s') : BusLike N pb interests s' :=
  ⟨(h.sane.step he).1, h.shared.step h.sane hset (step_fires h.sane.standing h.sane.lawful he),
    fun k => (h.ordered k).step h.sane he, fun k => (h.inOrder k).step he.1.isFixed he.2⟩

theorem BusLike.receivedFrom_eq (h : BusLike N pb interests s) (j k : κ) :
    s.receivedFrom N pb j k =
      Bus.heard (wants interests) (s.routedFrom pb (N.home (.inr k))) j k := by
  have hdata : ∀ env ∈ s.publications j,
      (!Keys.isControlMessage env.key && env.tracked) = true ∧
        (!Keys.isControlMessage env.key) = true := by
    intro env henv
    obtain ⟨x, hx, rfl⟩ := List.mem_map.mp henv
    obtain ⟨hd, ht⟩ := (h.ordered j).data x hx
    rw [Envelope.IsData] at hd
    simp [hd, ht]
  have hrec : s.receivedFrom N pb j k = ((s.received N pb k).filter fun env =>
      !Keys.isControlMessage env.key && env.tracked).filter fun env => env ∈ s.publications j := by
    rw [receivedFrom, List.filter_filter]
    refine List.filter_congr fun env _ => ?_
    by_cases hp : env ∈ s.publications j
    · rw [(hdata env hp).1, Bool.and_true]
    · simp [hp]
  rw [hrec, h.shared.received k, List.filter_filter, Bus.heard]
  split_ifs with hjk
  · subst hjk
    rw [List.filter_eq_nil_iff]
    intro env _
    by_cases hp : env ∈ s.publications j <;> simp [hp]
  · rw [routedFrom, List.filter_filter]
    refine List.filter_congr fun env _ => ?_
    by_cases hp : env ∈ s.publications j
    · have hk : env ∉ s.publications k := fun hk => hjk (h.shared.apart j k env hp hk)
      rw [(hdata env hp).2]
      simp [hp, hk]
    · simp [hp]

theorem BusLike.receivedFrom_isPrefix (h : BusLike N pb interests s) (j k : κ) :
    s.receivedFrom N pb j k <+: Bus.heard (wants interests) s.publications j k := by
  rw [h.receivedFrom_eq]
  exact Bus.heard_isPrefix (h.routedFrom_isPrefix _ j) k

theorem BusLike.receivedFrom_quiescent (h : BusLike N pb interests s) (hc : N.Connected)
    (hq : s.Quiescent N pb) (j k : κ) :
    s.receivedFrom N pb j k = Bus.heard (wants interests) s.publications j k := by
  rw [h.receivedFrom_eq, Bus.heard, Bus.heard, h.routedFrom_eq hc hq]

theorem Fires.routed_isPrefix (hf : Fires N pb s s') (b : ι) :
    s.routed pb b <+: s'.routed pb b := by
  cases hf with
  | moves hm _ _ => rw [hm.routed]
  | keeps _ _ hm _ _ _ => rw [hm.routed]
  | visits b' ev hm hv ha hrec =>
    rw [routed_activate, hm.routed]
    exact List.prefix_append _ _

theorem Sane.routedFrom_step (h : Sane N pb s) (hf : Fires N pb s s') (b : ι) (j : κ) :
    s.routedFrom pb b j <+: s'.routedFrom pb b j := by
  have hold : s.routedFrom pb b j = (s.routed pb b).filter fun env => env ∈ s'.publications j := by
    refine List.filter_congr fun env henv => ?_
    simp only [h.mem_publications_step hf henv j]
  rw [hold]
  exact (hf.routed_isPrefix b).filter _

/-- The message of a client is published, if there is one, and then it is heard. -/
theorem BusLike.bus_step (h : BusLike N pb interests s) (h' : BusLike N pb interests s')
    (hf : Fires N pb s s') :
    Relation.ReflTransGen (Bus.Step (wants interests)) (s.bus N pb) (s'.bus N pb) := by
  have hgot : ∀ j k, s.receivedFrom N pb j k <+: s'.receivedFrom N pb j k := by
    intro j k
    rw [h.receivedFrom_eq, h'.receivedFrom_eq]
    exact Bus.heard_isPrefix (h.sane.routedFrom_step hf _ j) k
  have hear : Bus.Step (wants interests) ⟨s'.publications, s.receivedFrom N pb⟩ (s'.bus N pb) :=
    .hear (s'.receivedFrom N pb) hgot h'.receivedFrom_isPrefix
  rcases h.sane.publications_step hf with hp | ⟨k, m, hp, hm, -⟩
  · rw [hp] at hear
    exact .single hear
  · rw [hp] at hear
    exact .head (.publish k m hm) (.single hear)

theorem busLike_of_run {s₀ : Mesh ι ω κ} {tr : List (Event ι ω κ × Mesh ι ω κ)}
    (h₀ : s₀.Established N pb) (hr : Run (guarded
      (fun s e => s.Undisturbed N pb e ∧ s.Settled N interests) (ofFun (step N pb))) s₀ tr s) :
    BusLike N pb interests s :=
  hr.invariant (P := BusLike N pb interests) h₀.busLike
    fun _ _ _ h he => h.step he.1.2 ⟨he.1.1, he.2⟩

theorem BusLike.bus_next (h : BusLike N pb interests s) {e : Event ι ω κ}
    (hs : guarded (fun s e => s.Undisturbed N pb e ∧ s.Settled N interests)
      (ofFun (Mesh.step N pb)) s e s') :
    Relation.ReflTransGen (Bus.Step (wants interests)) (s.bus N pb) (s'.bus N pb) := by
  have hfixed : FixedStep N pb s e s' := ⟨hs.1.1, hs.2⟩
  exact h.bus_step (h.step hs.1.2 hfixed) (step_fires h.sane.standing h.sane.lawful hfixed)

/-- An established mesh whose clients keep their subscriptions refines the bus: it begins as an
empty bus, and each of its steps, from any state that it reaches, is a sequence of steps of the bus.
On it a client publishes what it wrote, in that order and with the identities of its broker, and
once no message is in flight between brokers everybody has heard everything. -/
theorem refines_bus {s₀ : Mesh ι ω κ} {tr : List (Event ι ω κ × Mesh ι ω κ)} (hc : N.Connected)
    (h₀ : s₀.Established N pb) (hr : Run (guarded
      (fun s e => s.Undisturbed N pb e ∧ s.Settled N interests) (ofFun (step N pb))) s₀ tr s) :
    s₀.bus N pb = ⟨fun _ => [], fun _ _ => []⟩ ∧
    (∀ e s', guarded (fun s e => s.Undisturbed N pb e ∧ s.Settled N interests)
        (ofFun (step N pb)) s e s' →
      Relation.ReflTransGen (Bus.Step (wants interests)) (s.bus N pb) (s'.bus N pb)) ∧
    Relation.ReflTransGen (Bus.Step (wants interests)) (s₀.bus N pb) (s.bus N pb) ∧
    (∀ k, (s.taken k).map Prod.fst <+: s.written k ∧
      ∀ x ∈ s.taken k, ∃ fresh, x.2 = (s.broker (N.home (.inr k))).stamped fresh x.1) ∧
    (s.Quiescent N pb → ∀ j k,
      s.receivedFrom N pb j k = Bus.heard (wants interests) s.publications j k) := by
  have h := busLike_of_run h₀ hr
  refine ⟨?_, fun e s' hs => h.bus_next hs, ?_,
    fun k => ⟨⟨_, (h.inOrder k).written.symm⟩, h.shared.stamped k⟩,
    fun hq => h.receivedFrom_quiescent hc hq⟩
  · rw [h₀.2]
    rfl
  · refine hr.traceInvariant (P := fun _ s => Relation.ReflTransGen (Bus.Step (wants interests))
      (s₀.bus N pb) (s.bus N pb)) .refl fun tr u e u' hru ih he => ?_
    exact ih.trans ((busLike_of_run h₀ hru).bus_next he)

/-- Both messages of `publishingTwice` come back over the other link and end there. -/
def circulatingTwice : List (Event Bool Bool Bool) :=
  publishingTwice ++ [.sendOutbound (.inl true), .sendOutbound (.inl true),
    .take (.inl true) newsUuid 0, .take (.inl true) newsUuid 0, .recv (.inl true),
    .recv (.inl true), .takePeer true newsUuid 0, .takePeer true newsUuid 0]

def circulatedTwice : Mesh Bool Bool Bool :=
  (exec (step mutualDial BrokerProto.proto3) linkedUp circulatingTwice).get (by decide +kernel)

def readers (k : Bool) : List String := if k then ["news"] else []

theorem refines_bus_news :
    ((circulatedTwice.receivedFrom mutualDial BrokerProto.proto3 false true).map Envelope.payload =
      [[1], [2]]) ∧
    circulatedTwice.receivedFrom mutualDial BrokerProto.proto3 false true =
      Bus.heard (wants readers) circulatedTwice.publications false true := by
  have hr : Run (guarded (fun s e => s.Undisturbed mutualDial BrokerProto.proto3 e ∧
      s.Settled mutualDial readers) (ofFun (step mutualDial BrokerProto.proto3))) linkedUp
      (trace (step mutualDial BrokerProto.proto3) linkedUp circulatingTwice) circulatedTwice :=
    exec_guarded (by decide +kernel) (by simp [circulatedTwice])
  have hend : ((∀ w, circulatedTwice.pending mutualDial BrokerProto.proto3 (.up w) = []) ∧
      ∀ w, circulatedTwice.pending mutualDial BrokerProto.proto3 (.down w) = []) ∧
      (circulatedTwice.receivedFrom mutualDial BrokerProto.proto3 false true).map Envelope.payload =
        [[1], [2]] := by
    decide +kernel
  have hq : circulatedTwice.Quiescent mutualDial BrokerProto.proto3 := by
    intro e
    cases e with
    | up w => exact hend.1.1 w
    | down w => exact hend.1.2 w
  exact ⟨hend.2, (refines_bus mutualDial_connected linkedUp_established hr).2.2.2.2 hq false true⟩

end Mesh

end ZmqPubSub
