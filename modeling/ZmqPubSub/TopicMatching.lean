import ZmqPubSub.BrokerRouting
import ZmqPubSub.Dispatch

/-!
The broker matches a topic against the subscriptions of a client, the client looks the topic up
among its handlers. The two agree except that the client has no wildcard.
-/

namespace ZmqPubSub

open Containers TransitionSystem

/-- A subscription to the empty topic is a wildcard. -/
def Matches (key topic : String) : Prop := key = topic ∨ key = ""

instance (key topic : String) : Decidable (Matches key topic) := inferInstanceAs (Decidable (_ ∨ _))

namespace Dispatch

variable {κ : Type*} {d d' : Dispatch κ} {e : Event κ}

def HasHandler (d : Dispatch κ) (key : String) (n : ℕ) : Prop :=
  ∃ entry ∈ d.manager.callbacks key, entry.func.1 = n

/-- The registrations whose callbacks `handleMessage` calls for a message, in order. -/
def invoked (d : Dispatch κ) (env : Envelope) : List ℕ :=
  (d.manager.callbacks env.header.topic).map fun entry => entry.func.1

theorem exec_invoke {env : Envelope} {callbacks : List (CallbackEntry (ℕ × κ))} {i : ℕ}
    (hi : i ≤ callbacks.length) (hd : d.handling = some ⟨env, callbacks⟩) :
    exec step d (List.replicate i .invoke) =
      some { d with handling := some ⟨env, callbacks.drop i⟩ } := by
  induction i generalizing d callbacks with
  | zero => simp [exec, ← hd]
  | succ i ih =>
    cases callbacks with
    | nil => simp at hi
    | cons entry rest =>
      have hstep : d.step .invoke = some { d with handling := some ⟨env, rest⟩ } := by
        simp [step, hd]
      have hrest :=
        ih (d := { d with handling := some ⟨env, rest⟩ }) (Nat.le_of_succ_le_succ hi) rfl
      rw [List.replicate_succ, exec, List.foldlM_cons, hstep]
      exact hrest

/-- The callback that begins after `i` others is the one that `invoked` lists there, and after all
of them `handleMessage` returns. -/
theorem begins_invoked (hst : d.stage ≠ .absent) (hidle : d.handling = none) (env : Envelope)
    {i : ℕ} (hi : i ≤ (d.invoked env).length) :
    ∃ d', exec step d (.copy env :: List.replicate i .invoke) = some d' ∧
      (∀ n, d'.Begins n ↔ (d.invoked env)[i]? = some n) ∧
      (i = (d.invoked env).length → d'.step .finish = some d) := by
  have hi' : i ≤ (d.manager.callbacks env.header.topic).length := by simpa [invoked] using hi
  have hcopy : d.step (.copy env) = some (d.copy env) := by
    simp [step, hst, hidle]
  refine ⟨{ d with handling := some ⟨env, (d.manager.callbacks env.header.topic).drop i⟩ }, ?_,
    fun n => ?_, fun he => ?_⟩
  · rw [exec, List.foldlM_cons, hcopy]
    exact exec_invoke (d := d.copy env) hi' rfl
  · rw [invoked, List.getElem?_map, ← List.head?_drop]
    cases hc : (d.manager.callbacks env.header.topic).drop i with
    | nil => simp [Begins]
    | cons entry rest => simp [Begins]
  · have hdrop : (d.manager.callbacks env.header.topic).drop i = [] := by
      rw [List.drop_eq_nil_iff]
      simpa [invoked] using he.ge
    rw [hdrop]
    simp [step, ← hidle]

/-- The callbacks are in the order of their registration, and those that will be flushed come
last. -/
structure InOrder (d : Dispatch κ) : Prop where
  map : ∀ key, (d.manager.callbacks key).Pairwise fun x y => x.func.1 < y.func.1
  pending : ¬ d.Published → d.pending.Pairwise (fun x y => x.2.func.1 < y.2.func.1) ∧
    ∀ key, ∀ entry ∈ d.manager.callbacks key, ∀ p ∈ d.pending, entry.func.1 < p.2.func.1

theorem InOrder.enter {k : String} {new : CallbackEntry (ℕ × κ)}
    (h : ∀ key, (d.manager.callbacks key).Pairwise fun x y => x.func.1 < y.func.1)
    (hnew : ∀ key, ∀ entry ∈ d.manager.callbacks key, entry.func.1 < new.func.1) (key : String) :
    ((d.enter k new).manager.callbacks key).Pairwise fun x y => x.func.1 < y.func.1 := by
  rw [callbacks_enter]
  split_ifs
  · refine List.pairwise_append.mpr ⟨h k, List.pairwise_singleton _ _, fun x hx y hy => ?_⟩
    rw [List.mem_singleton.mp hy]
    exact hnew k x hx
  · exact h key

theorem Numbered.lt_nextEntry (hd : d.Numbered) (callback : κ) (owner : ℕ) (key : String) :
    ∀ entry ∈ d.manager.callbacks key, entry.func.1 < (d.nextEntry callback owner).func.1 :=
  fun entry he => (List.getElem?_eq_some_iff.mp (hd.inMap key entry he)).1

theorem InOrder.step (hd : d.InOrder) (hn : d.Numbered) (h : Step d e d') : d'.InOrder := by
  obtain ⟨hmap, hpending⟩ := hd
  cases step_fires h with
  | init hst =>
    refine ⟨hmap, fun _ => hpending ?_⟩
    simp [Published, hst]
  | @flush k new rest hst hp =>
    have hnot : ¬ d.Published := by simp [Published, hst]
    obtain ⟨hsorted, hbefore⟩ := hpending hnot
    rw [hp] at hsorted hbefore
    have hfirst := fun key entry he => hbefore key entry he (k, new) List.mem_cons_self
    refine ⟨InOrder.enter hmap hfirst, fun _ => ⟨hsorted.of_cons, fun key entry he p hpr => ?_⟩⟩
    rcases mem_callbacks_enter (d := d) he with he | ⟨-, rfl⟩
    · exact hbefore key entry he p (List.mem_cons_of_mem _ hpr)
    · exact List.rel_of_pairwise_cons hsorted hpr
  | flushed => exact ⟨hmap, fun hnot => absurd (.inl rfl) hnot⟩
  | shutdown => exact ⟨hmap, fun hnot => absurd (.inr rfl) hnot⟩
  | register k callback owner hst =>
    exact ⟨InOrder.enter hmap (hn.lt_nextEntry callback owner), fun hnot => absurd (.inl hst) hnot⟩
  | defer k callback owner hst =>
    refine ⟨hmap, fun hnot => ?_⟩
    obtain ⟨hsorted, hbefore⟩ := hpending hnot
    refine ⟨List.pairwise_append.mpr ⟨hsorted, List.pairwise_singleton _ _, fun x hx y hy => ?_⟩,
      fun key entry he p hpr => ?_⟩
    · rw [List.mem_singleton.mp hy]
      exact (List.getElem?_eq_some_iff.mp (hn.inPending x.1 x.2 hx)).1
    · rcases List.mem_append.mp hpr with hpr | hpr
      · exact hbefore key entry he p hpr
      · rw [List.mem_singleton.mp hpr]
        exact hn.lt_nextEntry callback owner key entry he
  | request k callback owner hst =>
    exact ⟨InOrder.enter hmap (hn.lt_nextEntry callback owner), fun hnot => absurd hst hnot⟩
  | unregister k owner hmem =>
    have hsub : ∀ key, ((d.unregister k owner).manager.callbacks key).Sublist
        (d.manager.callbacks key) := by
      intro key
      change ((d.manager.performUnregistration k owner).callbacks key).Sublist _
      rw [ConnectionManager.callbacks_performUnregistration]
      split_ifs with hk
      · rw [hk]
        exact List.filter_sublist
      · exact List.Sublist.refl _
    refine ⟨fun key => (hmap key).sublist (hsub key), fun hnot => ?_⟩
    obtain ⟨hsorted, hbefore⟩ := hpending hnot
    exact ⟨hsorted, fun key entry he => hbefore key entry ((hsub key).subset he)⟩
  | found | notFound | copy | invoke | finish => exact ⟨hmap, hpending⟩

theorem nodup_callbacks (hr : Reachable Initial Step d) (key : String) :
    ((d.manager.callbacks key).map fun entry => entry.func.1).Nodup := by
  have hinv : d.Numbered ∧ d.InOrder := by
    refine hr.invariant (P := fun d => d.Numbered ∧ d.InOrder) ?_ ?_
    · intro d hi
      refine ⟨hi.numbered, ?_⟩
      obtain ⟨manager, hm, rfl⟩ := hi
      refine ⟨fun key => ?_, fun _ => ⟨List.Pairwise.nil, by simp⟩⟩
      rw [callbacks_initial hm]
      exact List.Pairwise.nil
    · exact fun _ _ _ hd h => ⟨hd.1.step h, hd.2.step hd.1 h⟩
  exact List.pairwise_map.mpr ((hinv.2.map key).imp fun hlt => Nat.ne_of_lt hlt)

/-- A handler is called once for a message of the topic it is registered for, and for no other. -/
theorem count_invoked (hr : Reachable Initial Step d) {key : String} {n : ℕ}
    (h : d.HasHandler key n) (env : Envelope) :
    (d.invoked env).count n = if key = env.header.topic then 1 else 0 := by
  obtain ⟨entry, he, rfl⟩ := h
  have hnum := numbered_of_reachable hr
  split_ifs with hk
  · subst hk
    exact List.count_eq_one_of_mem (nodup_callbacks hr _) (List.mem_map_of_mem he)
  · rw [List.count_eq_zero]
    intro hm
    obtain ⟨other, ho, hn⟩ := List.mem_map.mp hm
    have hother := hnum.inMap _ other ho
    rw [hn, hnum.inMap key entry he] at hother
    exact hk (congrArg Prod.fst (Option.some.inj hother))

theorem noEmptyEntry_of_reachable (hr : Reachable Initial Step d) : d.manager.NoEmptyEntry := by
  refine hr.invariant (P := fun d => d.manager.NoEmptyEntry) ?_ ?_
  · rintro _ ⟨manager, hm, rfl⟩ key he
    rw [hm] at he
    cases he
  · intro d e d' hd h
    cases step_fires h with
    | flush | register | request => exact hd.performRegistration _ _ _
    | unregister key owner => exact hd.performUnregistration _ _
    | _ => exact hd

theorem exists_hasHandler_iff (hr : Reachable Initial Step d) (key : String) :
    (∃ n, d.HasHandler key n) ↔ key ∈ d.manager.msgHandlers := by
  rw [← AList.lookup_isSome, (noEmptyEntry_of_reachable hr).lookup_eq]
  unfold HasHandler
  cases d.manager.callbacks key with
  | nil => simp
  | cons entry rest => simp

theorem invoked_ne_nil (hr : Reachable Initial Step d) (env : Envelope) :
    d.invoked env ≠ [] ↔ env.header.topic ∈ d.manager.msgHandlers := by
  rw [← exists_hasHandler_iff hr, invoked, Ne, List.map_eq_nil_iff]
  unfold HasHandler
  cases d.manager.callbacks env.header.topic with
  | nil => simp
  | cons entry rest => simp

end Dispatch

namespace Broker

variable {ω κ : Type*} {pb : Protobuf} {b : Broker ω} {d : Dispatch κ} {c : String}

theorem consumedLocally_of_data {key : String} (h : Keys.isControlMessage key = false) :
    consumedLocally key = false := by
  simp only [Keys.isControlMessage, consumedLocally, Bool.or_eq_false_iff] at h ⊢
  simp [h]

theorem mem_clientSends_of_routes (h : b.WellFormed) {fresh : Uuid} {now : Time} {env : Envelope}
    {senderId : String} {isFromPeer : Bool} (hr : b.Routes env.key senderId isFromPeer)
    (hc : ¬ (isFromPeer = false ∧ c = senderId))
    (hnew : (b.stamp fresh env.header).messageUuid ∉ b.window.seen) :
    c ∈ (Effect.clientSends
        (b.processMessage pb fresh now env senderId isFromPeer).2).map Prod.fst ↔
      ∃ key, b.Subscribed c key ∧ Matches key env.header.topic := by
  have hw := h.seated now senderId isFromPeer
  rw [clientSends_of_routes hr, if_neg hnew, List.map_map]
  change c ∈ List.map (fun id => id) _ ↔ _
  rw [List.map_id', mem_recipients hw, mem_seated_clients hr, and_iff_left hc]
  constructor
  · rintro ⟨-, hs | hs⟩
    · exact ⟨_, by simpa [Subscribed] using hs, .inl rfl⟩
    · exact ⟨"", by simpa [Subscribed] using hs, .inr rfl⟩
  · rintro ⟨key, hs, hk⟩
    refine ⟨h.subscriber_known (h.subscribed_iff.mp hs), ?_⟩
    rcases hk with rfl | rfl
    · exact .inl (by simpa [Subscribed] using hs)
    · exact .inr (by simpa [Subscribed] using hs)

theorem mem_oneHandler {key t : String} :
    t ∈ (Dispatch.oneHandler key).manager.msgHandlers ↔ t = key := by
  change t ∈ [key] ↔ t = key
  exact List.mem_singleton

def wildcardClient : Broker Unit :=
  [Event.fromRouter ⟨"00000000-0000-4000-8000-00000000000c", rfl⟩ 0 (heartbeatEnvelope "client-a")
      "client-a",
    .fromRouter ⟨"00000000-0000-4000-8000-00000000000d", rfl⟩ 0
      (createControlEnvelope Keys.subscribe "client-a" "") "client-a",
    .fromRouter ⟨"00000000-0000-4000-8000-00000000000e", rfl⟩ 0 (heartbeatEnvelope "client-b")
      "client-b"].foldl (fun b e => (b.step BrokerProto.proto3 e).1) { brokerId := "broker-1" }

/-- The broker sends the message to the client, and the client calls no handler. -/
theorem wildcard_handler_not_called :
    Reachable BrokerProto.proto3 wildcardClient ∧
    (∀ t, t ∈ (Dispatch.oneHandler "").manager.msgHandlers ↔
      wildcardClient.Subscribed "client-a" t) ∧
    "client-b" ∈ wildcardClient.clients ∧ Keys.isControlMessage newsEnvelope.key = false ∧
    (Dispatch.oneHandler "").HasHandler "" 0 ∧ Matches "" newsEnvelope.header.topic ∧
    (Dispatch.oneHandler "").invoked newsEnvelope = [] ∧
    "client-a" ∈ (Effect.clientSends (wildcardClient.processMessage BrokerProto.proto3
      ⟨"00000000-0000-4000-8000-000000000004", rfl⟩ 0 newsEnvelope "client-b" false).2).map
        Prod.fst := by
  have hsub : wildcardClient.subscriptions.subscriptionsOf "client-a" = some [""] := by decide
  refine ⟨reachable_foldl_step ⟨_, [], ⟨"broker-1", 0, rfl⟩, .nil _⟩ _, fun t => ?_, by decide,
    by decide, ⟨_, List.mem_cons_self, rfl⟩, by decide, by decide, by decide +kernel⟩
  rw [mem_oneHandler, Subscribed, hsub]
  simp

/-- Exactly when the message has the empty topic, or the client has no handler for the empty topic,
a handler is called once iff its key matches, and the broker sends the message iff a handler is
called. -/
theorem dispatch_agrees_iff (hb : Reachable pb b)
    (hd : TransitionSystem.Reachable Dispatch.Initial Dispatch.Step d)
    (hkeys : ∀ t, t ∈ d.manager.msgHandlers ↔ b.Subscribed c t)
    (fresh : Uuid) (now : Time) (env : Envelope) (senderId : String) (isFromPeer : Bool)
    (hdata : Keys.isControlMessage env.key = false)
    (hsender : isFromPeer = true ∨ isFromPeer = false ∧ senderId ∈ b.clients ∧ senderId ≠ c)
    (hnew : (b.stamp fresh env.header).messageUuid ∉ b.window.seen) :
    ((∀ key n, d.HasHandler key n →
        ((d.invoked env).count n = 1 ↔ Matches key env.header.topic)) ∧
      (c ∈ (Effect.clientSends (b.processMessage pb fresh now env senderId isFromPeer).2).map
        Prod.fst ↔ d.invoked env ≠ [])) ↔
    env.header.topic = "" ∨ "" ∉ d.manager.msgHandlers := by
  have hroutes : b.Routes env.key senderId isFromPeer := by
    rcases hsender with hp | ⟨hl, hs, -⟩
    · exact .inl ⟨hp, ignoredFromPeer_of_data hdata⟩
    · exact .inr ⟨hl, hs, consumedLocally_of_data hdata⟩
  have hother : ¬ (isFromPeer = false ∧ c = senderId) := by
    rintro ⟨hl, rfl⟩
    rcases hsender with hp | ⟨-, -, hne⟩
    · exact Bool.false_ne_true (hl.symm.trans hp)
    · exact hne rfl
  have hcount : ∀ key n, d.HasHandler key n →
      ((d.invoked env).count n = 1 ↔ key = env.header.topic) := by
    intro key n h
    rw [Dispatch.count_invoked hd h]
    split_ifs with hk <;> simp [hk]
  rw [mem_clientSends_of_routes hb.wellFormed hroutes hother hnew, Dispatch.invoked_ne_nil hd]
  constructor
  · rintro ⟨hmatch, -⟩
    by_contra! hno
    -- a handler for the empty topic matches but is not called
    obtain ⟨n, hn⟩ := (Dispatch.exists_hasHandler_iff hd "").mpr hno.2
    exact hno.1 ((hcount "" n hn).mp ((hmatch "" n hn).mpr (.inr rfl))).symm
  · intro hempty
    have hkey : ∀ key ∈ d.manager.msgHandlers, Matches key env.header.topic →
        key = env.header.topic := by
      rintro key hk (rfl | rfl)
      · rfl
      · rcases hempty with ht | hn
        · exact ht.symm
        · exact absurd hk hn
    refine ⟨fun key n h => ?_, ?_, fun ht => ?_⟩
    · rw [hcount key n h]
      exact ⟨.inl, hkey key ((Dispatch.exists_hasHandler_iff hd key).mp ⟨n, h⟩)⟩
    · rintro ⟨key, hs, hk⟩
      have hm := (hkeys key).mpr hs
      exact hkey key hm hk ▸ hm
    · exact ⟨_, (hkeys _).mp ht, .inl rfl⟩

theorem dispatch_agrees_iff_news :
    (∀ t, t ∈ (Dispatch.oneHandler "news").manager.msgHandlers ↔
      twoClients.Subscribed "client-a" t) ∧
    ((Dispatch.oneHandler "news").invoked newsEnvelope).count 0 = 1 ∧
    "client-a" ∈ (Effect.clientSends (twoClients.processMessage BrokerProto.proto3
      ⟨"00000000-0000-4000-8000-000000000004", rfl⟩ 0 newsEnvelope "client-b" false).2).map
        Prod.fst := by
  have hkeys : ∀ t, t ∈ (Dispatch.oneHandler "news").manager.msgHandlers ↔
      twoClients.Subscribed "client-a" t := by
    have hsub : twoClients.subscriptions.subscriptionsOf "client-a" = some ["news"] := by decide
    intro t
    rw [mem_oneHandler, Subscribed, hsub]
    simp
  have h := (dispatch_agrees_iff twoClients_reachable (Dispatch.oneHandler_reachable "news") hkeys
    ⟨"00000000-0000-4000-8000-000000000004", rfl⟩ 0 newsEnvelope "client-b" false (by decide)
    (.inr ⟨rfl, by decide, by decide⟩) (by decide)).mpr (.inr (by rw [mem_oneHandler]; decide))
  exact ⟨hkeys, (h.1 "news" 0 ⟨_, List.mem_cons_self, rfl⟩).mpr (.inl rfl),
    h.2.mpr (by decide)⟩

end Broker

end ZmqPubSub
