import Mathlib.Data.List.Sort
import Mathlib.Order.BooleanAlgebra.Set
import ZmqPubSub.Containers

/-!
`SubscriptionRegistry` keeps the client/topic relation twice, once per side. The model follows the
three updates of `subscriptionregistry.h`; the relation itself is the abstract state, and
`Represents` says that both maps hold exactly that relation, with no empty entry on either side.
-/

namespace ZmqPubSub

open Containers

/-- `clientTopics` maps a client to its `std::set` of topics, kept as an increasing list, and
`topicSubscribers` a topic to its `std::vector` of clients. -/
structure SubscriptionRegistry where
  clientTopics : Table String (List String) := ∅
  topicSubscribers : Table String (List String) := ∅

namespace SubscriptionRegistry

variable (r : SubscriptionRegistry) (clientId topic : String)

def dropSubscriber (topic clientId : String) : SubscriptionRegistry :=
  match r.topicSubscribers.lookup topic with
  | none => r
  | some subs =>
    let subs := swapRemove subs clientId
    if subs.isEmpty then { r with topicSubscribers := r.topicSubscribers.erase topic }
    else { r with topicSubscribers := r.topicSubscribers.insert topic subs }

/-- Returns true if this created a new subscription. -/
def subscribe : Bool × SubscriptionRegistry :=
  -- `operator[]` default-constructs the entry of a client that has none
  let topics := (r.clientTopics.lookup clientId).getD []
  if topic ∈ topics then (false, { r with clientTopics := r.clientTopics.insert clientId topics })
  else
    let subs := (r.topicSubscribers.lookup topic).getD []
    (true, { clientTopics := r.clientTopics.insert clientId (topics.orderedInsert (· ≤ ·) topic)
             topicSubscribers := r.topicSubscribers.insert topic (subs ++ [clientId]) })

/-- Returns true if the subscription existed. -/
def unsubscribe : Bool × SubscriptionRegistry :=
  match r.clientTopics.lookup clientId with
  | none => (false, r)
  | some topics =>
    if topic ∈ topics then
      let topics := topics.erase topic
      let clientTopics := if topics.isEmpty then r.clientTopics.erase clientId
        else r.clientTopics.insert clientId topics
      (true, dropSubscriber { r with clientTopics := clientTopics } topic clientId)
    else (false, r)

def removeClient : SubscriptionRegistry :=
  match r.clientTopics.lookup clientId with
  | none => r
  | some topics =>
    let r := topics.foldl (fun r topic => r.dropSubscriber topic clientId) r
    { r with clientTopics := r.clientTopics.erase clientId }

/-- `none` when nobody subscribes to the topic. -/
def subscribersOf : Option (List String) := r.topicSubscribers.lookup topic

/-- `none` when the client has no subscriptions. -/
def subscriptionsOf : Option (List String) := r.clientTopics.lookup clientId

/-- Clients paired with the topics they subscribe to. -/
abbrev Pairs := Set (String × String)

/-- One side of the registry, read as a map into non-empty duplicate-free lists, holds exactly the
slices of a relation. -/
def Holds (t : Table String (List String)) (R : String → String → Prop) : Prop :=
  ∀ k, (t.lookup k = none ∧ ∀ x, ¬ R k x) ∨
    ∃ l, t.lookup k = some l ∧ l ≠ [] ∧ l.Nodup ∧ ∀ x, x ∈ l ↔ R k x

structure Represents (S : Pairs) : Prop where
  clients : Holds r.clientTopics fun c t => (c, t) ∈ S
  topics : Holds r.topicSubscribers fun t c => (c, t) ∈ S

theorem Holds.congr {t : Table String (List String)} {R R' : String → String → Prop}
    (h : Holds t R) (hR : ∀ k x, R k x ↔ R' k x) : Holds t R' := by
  have he : R = R' := funext fun k => funext fun x => propext (hR k x)
  exact he ▸ h

theorem Holds.mem_getD {t : Table String (List String)} {R : String → String → Prop}
    (h : Holds t R) (k x : String) : x ∈ (t.lookup k).getD [] ↔ R k x := by
  rcases h k with ⟨hl, hR⟩ | ⟨l, hl, -, -, hR⟩
  · simp [hl, hR]
  · simpa [hl] using hR x

theorem Holds.nodup_getD {t : Table String (List String)} {R : String → String → Prop}
    (h : Holds t R) (k : String) : ((t.lookup k).getD []).Nodup := by
  rcases h k with ⟨hl, -⟩ | ⟨l, hl, -, hn, -⟩
  · simp [hl]
  · simpa [hl] using hn

theorem Holds.lookup_eq_none {t : Table String (List String)} {R : String → String → Prop}
    (h : Holds t R) (k : String) : t.lookup k = none ↔ ∀ x, ¬ R k x := by
  rcases h k with ⟨hl, hR⟩ | ⟨l, hl, hne, -, hR⟩
  · simp [hl, hR]
  · obtain ⟨x, hx⟩ := List.exists_mem_of_ne_nil l hne
    simpa [hl] using ⟨x, (hR x).mp hx⟩

theorem Holds.of_lookup {t : Table String (List String)} {R : String → String → Prop}
    (h : Holds t R) {k : String} {l : List String} (hl : t.lookup k = some l) :
    l ≠ [] ∧ l.Nodup ∧ ∀ x, x ∈ l ↔ R k x := by
  rcases h k with ⟨hl', -⟩ | ⟨l', hl', h'⟩
  · rw [hl] at hl'
    cases hl'
  · rw [hl] at hl'
    cases hl'
    exact h'

theorem Holds.insert {t : Table String (List String)} {R R' : String → String → Prop}
    (h : Holds t R) {k : String} {l : List String} (hne : l ≠ []) (hn : l.Nodup)
    (hk : ∀ x, x ∈ l ↔ R' k x) (ho : ∀ k' x, k' ≠ k → (R' k' x ↔ R k' x)) :
    Holds (t.insert k l) R' := by
  intro k'
  by_cases he : k' = k
  · subst he
    exact Or.inr ⟨l, AList.lookup_insert t, hne, hn, hk⟩
  · rw [AList.lookup_insert_ne he]
    simpa only [ho k' _ he] using h k'

theorem Holds.erase {t : Table String (List String)} {R R' : String → String → Prop}
    (h : Holds t R) {k : String} (hk : ∀ x, ¬ R' k x)
    (ho : ∀ k' x, k' ≠ k → (R' k' x ↔ R k' x)) : Holds (t.erase k) R' := by
  intro k'
  by_cases he : k' = k
  · subst he
    exact Or.inl ⟨AList.lookup_erase k' t, hk⟩
  · rw [AList.lookup_erase_ne he]
    simpa only [ho k' _ he] using h k'

/-- The emptied-entry discipline both maps follow: erase the key when nothing is left. -/
theorem Holds.insertOrErase {t : Table String (List String)} {R R' : String → String → Prop}
    (h : Holds t R) {k : String} {l : List String} (hn : l.Nodup)
    (hk : ∀ x, x ∈ l ↔ R' k x) (ho : ∀ k' x, k' ≠ k → (R' k' x ↔ R k' x)) :
    Holds (if l.isEmpty then t.erase k else t.insert k l) R' := by
  split_ifs with he
  · rw [List.isEmpty_iff] at he
    subst he
    exact h.erase (fun x hx => by simpa using (hk x).mpr hx) ho
  · exact h.insert (by simpa using he) hn hk ho

section Updates

variable {r} {S : Pairs}

theorem represents_empty : ({} : SubscriptionRegistry).Represents ∅ :=
  ⟨fun _ => Or.inl ⟨rfl, fun _ h => h⟩, fun _ => Or.inl ⟨rfl, fun _ h => h⟩⟩

@[simp] theorem dropSubscriber_clientTopics (topic clientId : String) :
    (r.dropSubscriber topic clientId).clientTopics = r.clientTopics := by
  unfold dropSubscriber
  split
  · rfl
  · dsimp only
    split_ifs <;> rfl

theorem dropSubscriber_holds {R : String → String → Prop} (h : Holds r.topicSubscribers R)
    (topic clientId : String) : Holds (r.dropSubscriber topic clientId).topicSubscribers
      fun t c => R t c ∧ ¬ (t = topic ∧ c = clientId) := by
  rcases h topic with ⟨hl, hR⟩ | ⟨subs, hl, -, hn, hR⟩
  · have he : r.dropSubscriber topic clientId = r := by simp [dropSubscriber, hl]
    rw [he]
    refine h.congr fun t c => ⟨fun hc => ⟨hc, ?_⟩, And.left⟩
    rintro ⟨rfl, rfl⟩
    exact hR _ hc
  · have he : (r.dropSubscriber topic clientId).topicSubscribers =
        if (swapRemove subs clientId).isEmpty then r.topicSubscribers.erase topic
        else r.topicSubscribers.insert topic (swapRemove subs clientId) := by
      simp only [dropSubscriber, hl]
      split_ifs <;> rfl
    rw [he]
    refine h.insertOrErase (nodup_swapRemove hn clientId) (fun c => ?_) fun t c ht => ?_
    · rw [mem_swapRemove hn, hR]
      tauto
    · simp [ht]

/-- The loop of `removeClient`, for any list of topics. -/
theorem dropSubscribers_holds (topics : List String) (clientId : String)
    {R : String → String → Prop} (h : Holds r.topicSubscribers R) :
    Holds (topics.foldl (fun r topic => r.dropSubscriber topic clientId) r).topicSubscribers
      fun t c => R t c ∧ ¬ (t ∈ topics ∧ c = clientId) := by
  induction topics generalizing r R with
  | nil => simpa using h
  | cons topic topics ih =>
    refine (ih (dropSubscriber_holds h topic clientId)).congr fun t c => ?_
    simp only [List.mem_cons]
    tauto

theorem dropSubscribers_clientTopics (topics : List String) (clientId : String) :
    (topics.foldl (fun r topic => r.dropSubscriber topic clientId) r).clientTopics =
      r.clientTopics := by
  induction topics generalizing r with
  | nil => rfl
  | cons topic topics ih => rw [List.foldl_cons, ih, dropSubscriber_clientTopics]

/-- An update for one client leaves the entries of the others as they are. -/
theorem subscriptionsOf_subscribe_of_ne {c s : String} (hne : c ≠ s) (topic : String) :
    (r.subscribe s topic).2.subscriptionsOf c = r.subscriptionsOf c := by
  unfold subscribe subscriptionsOf
  dsimp only
  split_ifs <;> exact AList.lookup_insert_ne hne

theorem subscriptionsOf_unsubscribe_of_ne {c s : String} (hne : c ≠ s) (topic : String) :
    (r.unsubscribe s topic).2.subscriptionsOf c = r.subscriptionsOf c := by
  unfold unsubscribe subscriptionsOf
  split
  · rfl
  · split_ifs with ht
    · rw [dropSubscriber_clientTopics]
      dsimp only
      split_ifs
      · exact AList.lookup_erase_ne hne
      · exact AList.lookup_insert_ne hne
    · rfl

theorem subscriptionsOf_removeClient_of_ne {c s : String} (hne : c ≠ s) :
    (r.removeClient s).subscriptionsOf c = r.subscriptionsOf c := by
  unfold removeClient subscriptionsOf
  split
  · rfl
  · dsimp only
    rw [dropSubscribers_clientTopics]
    exact AList.lookup_erase_ne hne

theorem subscribe_fst (h : r.Represents S) (c t : String) :
    (r.subscribe c t).1 = true ↔ (c, t) ∉ S := by
  rw [← h.clients.mem_getD c t]
  by_cases ht : t ∈ (r.clientTopics.lookup c).getD [] <;> simp [subscribe, ht]

theorem subscribe_represents (h : r.Represents S) (c t : String) :
    (r.subscribe c t).2.Represents (insert (c, t) S) := by
  have hm := h.clients.mem_getD c
  by_cases ht : t ∈ (r.clientTopics.lookup c).getD []
  · have hS : insert (c, t) S = S := Set.insert_eq_of_mem ((hm t).mp ht)
    have he : (r.subscribe c t).2 = { r with
        clientTopics := r.clientTopics.insert c ((r.clientTopics.lookup c).getD []) } := by
      simp [subscribe, ht]
    rw [he, hS]
    exact ⟨h.clients.insert (List.ne_nil_of_mem ht) (h.clients.nodup_getD c) hm
      fun _ _ _ => Iff.rfl, h.topics⟩
  · have hc : c ∉ (r.topicSubscribers.lookup t).getD [] := by
      rwa [h.topics.mem_getD, ← h.clients.mem_getD]
    have he : (r.subscribe c t).2 =
        { clientTopics := r.clientTopics.insert c
            (((r.clientTopics.lookup c).getD []).orderedInsert (· ≤ ·) t)
          topicSubscribers :=
            r.topicSubscribers.insert t ((r.topicSubscribers.lookup t).getD [] ++ [c]) } := by
      simp [subscribe, ht]
    rw [he]
    have hp := List.perm_orderedInsert (· ≤ ·) t ((r.clientTopics.lookup c).getD [])
    refine ⟨h.clients.insert (fun he => by simp [he] at hp)
        (hp.nodup_iff.mpr ((h.clients.nodup_getD c).cons ht)) (fun x => ?_) ?_,
      h.topics.insert (by simp) ?_ (fun x => ?_) ?_⟩
    · simp [hm]
    · intro c' x hc'
      simp [hc']
    · simpa using (h.topics.nodup_getD t).concat hc
    · rw [List.mem_append, h.topics.mem_getD]
      simp [or_comm]
    · intro t' x ht'
      simp [ht']

theorem unsubscribe_fst (h : r.Represents S) (c t : String) :
    (r.unsubscribe c t).1 = true ↔ (c, t) ∈ S := by
  rw [← h.clients.mem_getD c t]
  unfold unsubscribe
  cases hl : r.clientTopics.lookup c with
  | none => simp
  | some topics =>
    dsimp only [Option.getD_some]
    split_ifs with ht <;> simp [ht]

theorem unsubscribe_represents (h : r.Represents S) (c t : String) :
    (r.unsubscribe c t).2.Represents (S \ {(c, t)}) := by
  by_cases hS : (c, t) ∈ S
  · obtain ⟨topics, hl, -, hn, hR⟩ := (h.clients c).resolve_left fun hc => hc.2 t hS
    have ht : t ∈ topics := (hR t).mpr hS
    have he : (r.unsubscribe c t).2 = dropSubscriber { r with
        clientTopics := if (topics.erase t).isEmpty then r.clientTopics.erase c
          else r.clientTopics.insert c (topics.erase t) } t c := by
      simp [unsubscribe, hl, ht]
    have hs : Holds { r with clientTopics := if (topics.erase t).isEmpty
        then r.clientTopics.erase c else r.clientTopics.insert c (topics.erase t) }.topicSubscribers
        fun t c => (c, t) ∈ S := h.topics
    rw [he]
    refine ⟨?_, ?_⟩
    · rw [dropSubscriber_clientTopics]
      refine h.clients.insertOrErase (hn.erase t) (fun x => ?_) fun c' x hc' => ?_
      · rw [hn.mem_erase_iff, hR]
        simp [and_comm]
      · simp [hc']
    · refine (dropSubscriber_holds hs t c).congr fun t' c' => ?_
      simp only [Set.mem_sdiff, Set.mem_singleton_iff, Prod.mk.injEq]
      tauto
  · have hf : (r.unsubscribe c t).2 = r := by
      have hn := mt (unsubscribe_fst h c t).mp hS
      unfold unsubscribe at hn ⊢
      split at hn
      · rfl
      · split_ifs at hn ⊢ <;> simp_all
    rwa [hf, Set.sdiff_singleton_eq_self hS]

def Same (r r' : SubscriptionRegistry) : Prop :=
  (∀ c, r.subscriptionsOf c = r'.subscriptionsOf c) ∧ ∀ t, r.subscribersOf t = r'.subscribersOf t

theorem Same.refl (r : SubscriptionRegistry) : r.Same r := ⟨fun _ => rfl, fun _ => rfl⟩

theorem Same.mem_iff {r' : SubscriptionRegistry} {S' : Pairs} (h : r.Represents S)
    (h' : r'.Represents S') (hs : r'.Same r) (c t : String) : (c, t) ∈ S' ↔ (c, t) ∈ S := by
  rw [← h.clients.mem_getD c t, ← h'.clients.mem_getD c t]
  exact iff_of_eq (congrArg (fun topics => t ∈ topics.getD []) (hs.1 c))

theorem subscribe_same_iff (h : r.Represents S) (c t : String) :
    (r.subscribe c t).2.Same r ↔ (c, t) ∈ S := by
  constructor
  · intro hs
    exact (hs.mem_iff h (subscribe_represents h c t) c t).mp (Set.mem_insert _ _)
  · intro hS
    obtain ⟨topics, hl, -, -, hR⟩ := (h.clients c).resolve_left fun hc => hc.2 t hS
    have he : (r.subscribe c t).2 =
        { r with clientTopics := r.clientTopics.insert c topics } := by
      simp [subscribe, hl, (hR t).mpr hS]
    rw [he]
    refine ⟨fun c' => ?_, fun _ => rfl⟩
    -- `operator[]` finds the entry that is there
    change (r.clientTopics.insert c topics).lookup c' = r.clientTopics.lookup c'
    by_cases hc : c' = c
    · rw [hc, AList.lookup_insert, hl]
    · rw [AList.lookup_insert_ne hc]

theorem unsubscribe_same_iff (h : r.Represents S) (c t : String) :
    (r.unsubscribe c t).2.Same r ↔ (c, t) ∉ S := by
  constructor
  · intro hs hS
    exact ((hs.mem_iff h (unsubscribe_represents h c t) c t).mpr hS).2 rfl
  · intro hS
    have he : (r.unsubscribe c t).2 = r := by
      rw [← h.clients.mem_getD c t] at hS
      unfold unsubscribe
      split
      · rfl
      · next topics hl =>
        rw [hl] at hS
        exact congrArg Prod.snd (if_neg hS)
    rw [he]
    exact .refl r

theorem removeClient_represents (h : r.Represents S) (c : String) :
    (r.removeClient c).Represents { p ∈ S | p.1 ≠ c } := by
  rcases h.clients c with ⟨hl, hR⟩ | ⟨topics, hl, -, -, hR⟩
  · have he : r.removeClient c = r := by simp [removeClient, hl]
    have hS : { p ∈ S | p.1 ≠ c } = S := by
      refine Set.sep_eq_self_iff_mem_true.mpr ?_
      rintro ⟨c', t⟩ hp rfl
      exact hR t hp
    rwa [he, hS]
  · have hc : (r.removeClient c).clientTopics = r.clientTopics.erase c := by
      simp [removeClient, hl, dropSubscribers_clientTopics]
    have ht : (r.removeClient c).topicSubscribers =
        (topics.foldl (fun r topic => r.dropSubscriber topic c) r).topicSubscribers := by
      simp [removeClient, hl]
    refine ⟨?_, ?_⟩
    · rw [hc]
      refine h.clients.erase (fun t => by simp) fun c' t hc' => ?_
      simp [hc']
    · rw [ht]
      refine (dropSubscribers_holds topics c h.topics).congr fun t c' => ?_
      simp only [Set.mem_sep_iff, ne_eq, hR, not_and]
      constructor
      · rintro ⟨hS, hne⟩
        exact ⟨hS, fun he => hne (he ▸ hS) he⟩
      · rintro ⟨hS, hne⟩
        exact ⟨hS, fun _ => hne⟩

end Updates

inductive Op
  | subscribe (clientId topic : String)
  | unsubscribe (clientId topic : String)
  | removeClient (clientId : String)

def perform (r : SubscriptionRegistry) : Op → SubscriptionRegistry
  | .subscribe c t => (r.subscribe c t).2
  | .unsubscribe c t => (r.unsubscribe c t).2
  | .removeClient c => r.removeClient c

/-- What each call means for the set of pairs. -/
def Op.onPairs (S : Pairs) : Op → Pairs
  | .subscribe c t => insert (c, t) S
  | .unsubscribe c t => S \ {(c, t)}
  | .removeClient c => { p ∈ S | p.1 ≠ c }

theorem perform_represents {r : SubscriptionRegistry} {S : Pairs} (h : r.Represents S) (op : Op) :
    (r.perform op).Represents (op.onPairs S) := by
  cases op with
  | subscribe c t => exact subscribe_represents h c t
  | unsubscribe c t => exact unsubscribe_represents h c t
  | removeClient c => exact removeClient_represents h c

theorem performs_represent (ops : List Op) {r : SubscriptionRegistry} {S : Pairs}
    (h : r.Represents S) : (ops.foldl perform r).Represents (ops.foldl Op.onPairs S) := by
  induction ops generalizing r S with
  | nil => exact h
  | cons op ops ih => exact ih (perform_represents h op)

/-- The registry refines a set of pairs: every return value, both lookups and the absence of
empty entries, after any sequence of calls on an empty registry. -/
theorem registry_refines_pairs (ops : List Op) :
    let r := ops.foldl perform {}
    let S := ops.foldl Op.onPairs ∅
    (∀ c t, (r.subscribe c t).1 = true ↔ (c, t) ∉ S) ∧
    (∀ c t, (r.unsubscribe c t).1 = true ↔ (c, t) ∈ S) ∧
    (∀ c, (r.removeClient c).Represents { p ∈ S | p.1 ≠ c }) ∧
    (∀ t, r.subscribersOf t = none ↔ ∀ c, (c, t) ∉ S) ∧
    (∀ t subs, r.subscribersOf t = some subs →
      subs ≠ [] ∧ subs.Nodup ∧ ∀ c, c ∈ subs ↔ (c, t) ∈ S) ∧
    (∀ c, r.subscriptionsOf c = none ↔ ∀ t, (c, t) ∉ S) ∧
    (∀ c topics, r.subscriptionsOf c = some topics →
      topics ≠ [] ∧ topics.Nodup ∧ ∀ t, t ∈ topics ↔ (c, t) ∈ S) := by
  intro r S
  have h : r.Represents S := performs_represent ops represents_empty
  exact ⟨subscribe_fst h, unsubscribe_fst h, removeClient_represents h,
    h.topics.lookup_eq_none, fun t subs => h.topics.of_lookup,
    h.clients.lookup_eq_none, fun c topics => h.clients.of_lookup⟩

example : (subscribe {} "client-a" "topic-1").2.subscribersOf "topic-1" = some ["client-a"] := by
  decide

end SubscriptionRegistry

end ZmqPubSub
