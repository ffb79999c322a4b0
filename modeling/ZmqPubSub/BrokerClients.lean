import ZmqPubSub.BrokerRouting

/-!
For every step of the broker, who is in `m_clients` and who holds which subscription afterwards.
-/

namespace ZmqPubSub.Broker

open Containers HistoryWindow SubscriptionRegistry

variable {ω : Type*} {pb : Protobuf} {b b' : Broker ω}

theorem subscribed_of_represents {S : Pairs} (h : b.subscriptions.Represents S) (c t : String) :
    b.Subscribed c t ↔ (c, t) ∈ S := h.clients.mem_getD c t

theorem subscribed_congr (h : b'.subscriptions = b.subscriptions) (c t : String) :
    b'.Subscribed c t ↔ b.Subscribed c t := by
  rw [Subscribed, Subscribed, h]

theorem stamp_congr (h : b'.brokerId = b.brokerId) (fresh : Uuid) (header : MessageHeader) :
    b'.stamp fresh header = b.stamp fresh header := by
  rw [stamp, stamp, h]

theorem WellFormed.known_of_subscribed (h : b.WellFormed) {c t : String} (hs : b.Subscribed c t) :
    c ∈ b.clients := h.subscriber_known (h.subscribed_iff.mp hs)

theorem WellFormed.subscriptionsOf_eq_none (h : b.WellFormed) {c : String} (hc : c ∉ b.clients) :
    b.subscriptions.subscriptionsOf c = none := by
  obtain ⟨S, hr, hk⟩ := h
  exact (hr.clients.lookup_eq_none c).mpr fun t ht => hc (hk (c, t) ht)

theorem subscribed_subscribe (h : b.WellFormed) {s topic : String}
    (hs : b'.subscriptions = (b.subscriptions.subscribe s topic).2) (c t : String) :
    b'.Subscribed c t ↔ (c = s ∧ t = topic) ∨ b.Subscribed c t := by
  obtain ⟨S, hr, -⟩ := h
  rw [subscribed_of_represents (hs ▸ subscribe_represents hr s topic), subscribed_of_represents hr]
  simp

theorem subscribed_unsubscribe (h : b.WellFormed) {s topic : String}
    (hs : b'.subscriptions = (b.subscriptions.unsubscribe s topic).2) (c t : String) :
    b'.Subscribed c t ↔ b.Subscribed c t ∧ ¬ (c = s ∧ t = topic) := by
  obtain ⟨S, hr, -⟩ := h
  rw [subscribed_of_represents (hs ▸ unsubscribe_represents hr s topic),
    subscribed_of_represents hr]
  simp

theorem subscribed_removeClient (h : b.WellFormed) (s c t : String) :
    (b.removeClient s).Subscribed c t ↔ b.Subscribed c t ∧ c ≠ s := by
  obtain ⟨S, hr, -⟩ := h
  have hr' : (b.removeClient s).subscriptions.Represents _ := removeClient_represents hr s
  rw [subscribed_of_represents hr', subscribed_of_represents hr]
  rfl

theorem mem_clients_removeClient (s c : String) :
    c ∈ (b.removeClient s).clients ↔ c ∈ b.clients ∧ c ≠ s := by
  change c ∈ b.clients.erase s ↔ _
  rw [AList.mem_erase, and_comm]

theorem mem_clients_touch (s c : String) (now : Time) :
    c ∈ (b.touch s now).clients ↔ c = s ∨ c ∈ b.clients := AList.mem_insert _

theorem processLocal_cases (now : Time) (header : MessageHeader) (payload : Bytes) (s : String) :
    let b' := (b.processLocal pb now header payload s).1
    (header.handlerKey = Keys.disconnect ∧ b' = b.removeClient s) ∨
    (header.handlerKey ≠ Keys.disconnect ∧ b'.clients = (b.touch s now).clients ∧
      ((s ∈ b.clients ∧ header.handlerKey = Keys.subscribe ∧
          b'.subscriptions = (b.subscriptions.subscribe s header.topic).2) ∨
        (s ∈ b.clients ∧ header.handlerKey = Keys.unsubscribe ∧
          b'.subscriptions = (b.subscriptions.unsubscribe s header.topic).2) ∨
        ((s ∈ b.clients → header.handlerKey ≠ Keys.subscribe ∧
            header.handlerKey ≠ Keys.unsubscribe) ∧
          b'.subscriptions = b.subscriptions))) := by
  intro b'
  by_cases hd : header.handlerKey = Keys.disconnect
  · exact Or.inl ⟨hd, by simp [b', processLocal, hd]⟩
  refine Or.inr ⟨hd, ?_⟩
  by_cases hk : s ∈ b.clients
  swap
  · have he : b' = b.touch s now := by simp [b', processLocal, hd, hk]
    exact ⟨by rw [he], Or.inr (Or.inr ⟨fun h => absurd h hk, by rw [he]; rfl⟩)⟩
  by_cases hs : header.handlerKey = Keys.subscribe
  · have hne : Keys.subscribe ≠ Keys.disconnect ∧ Keys.subscribe ≠ Keys.connect ∧
        Keys.subscribe ≠ Keys.heartbeat := by decide
    have he : b' = { b.touch s now with
        subscriptions := (b.subscriptions.subscribe s header.topic).2 } := by
      simp [b', processLocal, hk, hs, hne]
    exact ⟨by rw [he], Or.inl ⟨hk, hs, by rw [he]⟩⟩
  by_cases hu : header.handlerKey = Keys.unsubscribe
  · have hne : Keys.unsubscribe ≠ Keys.disconnect ∧ Keys.unsubscribe ≠ Keys.connect ∧
        Keys.unsubscribe ≠ Keys.heartbeat ∧ Keys.unsubscribe ≠ Keys.subscribe := by decide
    have he : b' = { b.touch s now with
        subscriptions := (b.subscriptions.unsubscribe s header.topic).2 } := by
      simp [b', processLocal, hk, hu, hne]
    exact ⟨by rw [he], Or.inr (Or.inl ⟨hk, hu, by rw [he]⟩)⟩
  have he : b'.clients = (b.touch s now).clients ∧ b'.subscriptions = b.subscriptions := by
    simp only [b', processLocal, hd, hk, hs, hu, if_false, not_true_eq_false]
    split_ifs
    · exact ⟨rfl, rfl⟩
    · exact ⟨rfl, rfl⟩
    · rw [route_fst]
      exact ⟨rfl, rfl⟩
  exact ⟨he.1, Or.inr (Or.inr ⟨fun _ => ⟨hs, hu⟩, he.2⟩)⟩

theorem mem_clients_processLocal (now : Time) (header : MessageHeader) (payload : Bytes)
    (s c : String) : c ∈ (b.processLocal pb now header payload s).1.clients ↔
      if header.handlerKey = Keys.disconnect then c ∈ b.clients ∧ c ≠ s
      else c = s ∨ c ∈ b.clients := by
  rcases @processLocal_cases ω pb b now header payload s with ⟨hd, he⟩ | ⟨hd, hc, -⟩
  · rw [if_pos hd, he, mem_clients_removeClient]
  · rw [if_neg hd, hc, mem_clients_touch]

theorem processLocal_of_ne (now : Time) (header : MessageHeader) (payload : Bytes) {s c : String}
    (hne : c ≠ s) :
    (b.processLocal pb now header payload s).1.clients.lookup c = b.clients.lookup c ∧
    (b.processLocal pb now header payload s).1.subscriptions.subscriptionsOf c =
      b.subscriptions.subscriptionsOf c := by
  rcases @processLocal_cases ω pb b now header payload s with
    ⟨-, he⟩ | ⟨-, hc, ⟨-, -, hs⟩ | ⟨-, -, hs⟩ | ⟨-, hs⟩⟩
  · rw [he]
    exact ⟨AList.lookup_erase_ne hne, subscriptionsOf_removeClient_of_ne hne⟩
  all_goals rw [hc, hs]
  · exact ⟨AList.lookup_insert_ne hne, subscriptionsOf_subscribe_of_ne hne _⟩
  · exact ⟨AList.lookup_insert_ne hne, subscriptionsOf_unsubscribe_of_ne hne _⟩
  · exact ⟨AList.lookup_insert_ne hne, rfl⟩

theorem subscribed_processLocal_of_ne (now : Time) (header : MessageHeader) (payload : Bytes)
    {s c : String} (hne : c ≠ s) (t : String) :
    (b.processLocal pb now header payload s).1.Subscribed c t ↔ b.Subscribed c t := by
  rw [Subscribed, Subscribed, (processLocal_of_ne now header payload hne).2]

theorem processMessage_frame (fresh : Uuid) (now : Time) (env : Envelope) (senderId : String) :
    (b.processMessage pb fresh now env senderId true).1.clients = b.clients ∧
    (b.processMessage pb fresh now env senderId true).1.subscriptions = b.subscriptions := by
  simp only [processMessage, if_true]
  split_ifs
  · exact ⟨rfl, rfl⟩
  · rw [route_fst]
    exact ⟨rfl, rfl⟩

theorem processFromPeer_frame (fresh : Uuid) (now : Time) (env : Envelope) :
    (b.processFromPeer pb fresh now env).1.clients = b.clients ∧
    (b.processFromPeer pb fresh now env).1.subscriptions = b.subscriptions :=
  processMessage_frame fresh now env "PEER"

/-- A local message leaves the entry and the subscriptions of every other client as they are, on
both sides of the registry, and a message from a peer the whole of both tables. -/
theorem clients_isolated (h : Reachable pb b) (fresh : Uuid) (now : Time) (env : Envelope)
    (s : String) :
    (∀ c ≠ s, let b' := (b.processMessage pb fresh now env s false).1
      b'.clients.lookup c = b.clients.lookup c ∧
      b'.subscriptions.subscriptionsOf c = b.subscriptions.subscriptionsOf c ∧
      ∀ t, c ∈ (b'.subscriptions.subscribersOf t).getD [] ↔
        c ∈ (b.subscriptions.subscribersOf t).getD []) ∧
    (b.processMessage pb fresh now env s true).1.clients = b.clients ∧
    (b.processMessage pb fresh now env s true).1.subscriptions = b.subscriptions := by
  refine ⟨?_, processMessage_frame fresh now env s⟩
  intro c hne b'
  have hw : b.WellFormed := h.wellFormed
  have hw' : b'.WellFormed := hw.processMessage fresh now env s false
  obtain ⟨hc, hs⟩ : b'.clients.lookup c = b.clients.lookup c ∧
      b'.subscriptions.subscriptionsOf c = b.subscriptions.subscriptionsOf c :=
    processLocal_of_ne now (b.stamp fresh env.header) env.payload hne
  refine ⟨hc, hs, fun t => ?_⟩
  rw [← hw'.subscribed_iff, ← hw.subscribed_iff, Subscribed, Subscribed, hs]

/-- The second client disconnects, in the name of the first. -/
def disconnected : Broker Unit :=
  (twoClients.processMessage BrokerProto.proto3 ⟨"00000000-0000-4000-8000-000000000004", rfl⟩ 0
    (createControlEnvelope Keys.disconnect "client-a" "") "client-b" false).1

theorem clients_isolated_disconnected : "client-b" ∉ disconnected.clients ∧
    disconnected.clients.lookup "client-a" = twoClients.clients.lookup "client-a" ∧
    disconnected.subscriptions.subscriptionsOf "client-a" =
      twoClients.subscriptions.subscriptionsOf "client-a" := by
  have h := (clients_isolated twoClients_reachable ⟨"00000000-0000-4000-8000-000000000004", rfl⟩ 0
    (createControlEnvelope Keys.disconnect "client-a" "") "client-b").1 "client-a" (by decide)
  exact ⟨by decide, h.1, h.2.1⟩

def Stale (now : Time) (e : Sigma fun _ : String => ClientState) : Prop :=
  now - e.2.lastSeen > clientTimeout

theorem sweepLoop_spec (now : Time) (l : List (Sigma fun _ : String => ClientState))
    (h : b.WellFormed) (c : String) :
    let b' := l.foldl
      (fun b e => if now - e.2.lastSeen > clientTimeout then b.removeClient e.1 else b) b
    (c ∈ b'.clients ↔ c ∈ b.clients ∧ ∀ e ∈ l, e.1 = c → ¬ Stale now e) ∧
    ∀ t, b'.Subscribed c t ↔ b.Subscribed c t ∧ ∀ e ∈ l, e.1 = c → ¬ Stale now e := by
  induction l generalizing b with
  | nil => simp
  | cons e l ih =>
    simp only [List.foldl_cons, List.forall_mem_cons]
    split_ifs with hst
    · obtain ⟨hc, hs⟩ := ih (h.removeClient e.1)
      have he : (e.1 = c → ¬ Stale now e) ↔ c ≠ e.1 :=
        ⟨fun hn hce => hn hce.symm hst, fun hne hec => absurd hec.symm hne⟩
      refine ⟨?_, fun t => ?_⟩
      · rw [hc, mem_clients_removeClient, he]
        tauto
      · rw [hs, subscribed_removeClient h, he]
        tauto
    · obtain ⟨hc, hs⟩ := ih h
      have he : (e.1 = c → ¬ Stale now e) ↔ True := iff_true_intro fun _ => hst
      simpa only [he, true_and] using ⟨hc, hs⟩

theorem subscribed_sweep (h : b.WellFormed) (now : Time) {c : String}
    (hc : c ∈ (b.sweep now).clients) (t : String) :
    (b.sweep now).Subscribed c t ↔ b.Subscribed c t := by
  obtain ⟨hm, hs⟩ := sweepLoop_spec now b.clients.entries h c
  exact (hs t).trans (and_iff_left (hm.mp hc).2)

theorem mem_clients_of_sweep (h : b.WellFormed) (now : Time) {c : String}
    (hc : c ∈ (b.sweep now).clients) : c ∈ b.clients :=
  ((sweepLoop_spec now b.clients.entries h c).1.mp hc).1

/-- The counters that the ROUTER branch updates play no part in processing the message. -/
theorem processFromRouter_eq (fresh : Uuid) (now : Time) (env : Envelope) (identity : String) :
    ∃ b₀ : Broker ω, b.processFromRouter pb fresh now env identity =
        b₀.processMessage pb fresh now env identity false ∧
      b₀.clients = b.clients ∧ b₀.subscriptions = b.subscriptions ∧
      b₀.window = b.window ∧ b₀.peers = b.peers ∧ b₀.brokerId = b.brokerId :=
  ⟨_, rfl, rfl, rfl, rfl, rfl, rfl⟩

/-- A DISCONNECT is the only message after which its sender has no entry. -/
theorem mem_clients_processFromRouter (fresh : Uuid) (now : Time) (env : Envelope)
    (s c : String) : c ∈ (b.processFromRouter pb fresh now env s).1.clients ↔
      if env.key = Keys.disconnect then c ∈ b.clients ∧ c ≠ s else c = s ∨ c ∈ b.clients := by
  obtain ⟨b₀, hr, hc, -⟩ := @processFromRouter_eq ω pb b fresh now env s
  have hmem := @mem_clients_processLocal ω pb b₀ now (b₀.stamp fresh env.header) env.payload s c
  rw [stamp_handlerKey, hc] at hmem
  rw [hr]
  exact hmem

/-- Whether a known client holds `t` after the broker has handled its message. -/
def HoldsAfter (env : Envelope) (t : String) (held : Prop) : Prop :=
  (env.key = Keys.subscribe ∧ t = env.header.topic) ∨
    (held ∧ ¬ (env.key = Keys.unsubscribe ∧ t = env.header.topic))

/-- The three things that a client's message can do to its own entry: remove it, create it and ask
for a reset, or change its subscriptions. -/
theorem processFromRouter_own (h : b.WellFormed) (fresh : Uuid) (now : Time) (env : Envelope)
    (c : String) :
    let r := b.processFromRouter pb fresh now env c
    (env.key = Keys.disconnect ∧ c ∉ r.1.clients ∧ ∀ t, ¬ r.1.Subscribed c t) ∨
    (c ∉ b.clients ∧ (∀ t, r.1.Subscribed c t ↔ b.Subscribed c t) ∧
      .sendToClient c (Wire.encodeHeader pb resetMsg) [] ∈ r.2) ∨
    (c ∈ b.clients ∧ c ∈ r.1.clients ∧
      ∀ t, r.1.Subscribed c t ↔ HoldsAfter env t (b.Subscribed c t)) := by
  intro r
  obtain ⟨b₀, hr, hc, hs, -⟩ := @processFromRouter_eq ω pb b fresh now env c
  have hw : b₀.WellFormed := h.mono hs fun _ hx => hc ▸ hx
  have hsub : ∀ t, b₀.Subscribed c t ↔ b.Subscribed c t := subscribed_congr hs c
  have hr1 : r.1 = (b₀.processLocal pb now (b₀.stamp fresh env.header) env.payload c).1 := by
    simp [r, hr, processMessage]
  rw [← hc, hr1]
  simp only [← hsub]
  have hmem := @mem_clients_processLocal ω pb b₀ now (b₀.stamp fresh env.header) env.payload c c
  rw [stamp_handlerKey] at hmem
  by_cases hd : env.header.handlerKey = Keys.disconnect
  · left
    rw [if_pos hd] at hmem
    have hn : c ∉ (b₀.processLocal pb now (b₀.stamp fresh env.header) env.payload c).1.clients :=
      fun hx => (hmem.mp hx).2 rfl
    exact ⟨hd, hn, fun t ht => hn ((hw.processLocal now _ env.payload c).known_of_subscribed ht)⟩
  right
  rw [if_neg hd] at hmem
  have hcases := @processLocal_cases ω pb b₀ now (b₀.stamp fresh env.header) env.payload c
  simp only [stamp_handlerKey, stamp_topic, hd, false_and, false_or, ne_eq, not_false_eq_true,
    true_and] at hcases
  have hsu : Keys.subscribe ≠ Keys.unsubscribe := by decide
  by_cases hk : c ∈ b₀.clients
  · refine Or.inr ⟨hk, hmem.mpr (Or.inl rfl), fun t => ?_⟩
    unfold HoldsAfter Envelope.key
    obtain ⟨-, ⟨-, hkey, he⟩ | ⟨-, hkey, he⟩ | ⟨hkey, he⟩⟩ := hcases
    · rw [subscribed_subscribe hw he, hkey]
      simp [hsu]
    · rw [subscribed_unsubscribe hw he, hkey]
      simp [hsu.symm]
    · rw [subscribed_congr he]
      simp [hkey hk]
  · refine Or.inl ⟨hk, fun t => ?_, ?_⟩
    · obtain ⟨-, ⟨hk', -⟩ | ⟨hk', -⟩ | ⟨-, he⟩⟩ := hcases
      · exact absurd hk' hk
      · exact absurd hk' hk
      · exact subscribed_congr he c t
    · simp [r, hr, processMessage, processLocal, hd, hk]

/-- The local client whose message the event is. -/
def Event.sender : Event ω → Option String
  | .fromRouter _ _ _ identity => some identity
  | _ => none

/-- Under the steps of others a client keeps its entry and its subscriptions, unless a sweep takes
both. -/
theorem step_of_others (h : b.WellFormed) {e : Event ω} {c : String} (he : e.sender ≠ some c) :
    ((c ∈ (b.step pb e).1.clients ↔ c ∈ b.clients) ∧
      ∀ t, (b.step pb e).1.Subscribed c t ↔ b.Subscribed c t) ∨
    ((∃ now, e = .sweep now) ∧ c ∉ (b.step pb e).1.clients ∧
      ∀ t, ¬ (b.step pb e).1.Subscribed c t) := by
  cases e with
  | fromRouter fresh now env identity =>
    have hne : c ≠ identity := fun hc => he (congrArg some hc.symm)
    obtain ⟨b₀, hr, hc, hs, -⟩ := @processFromRouter_eq ω pb b fresh now env identity
    have hr1 : (b.step pb (.fromRouter fresh now env identity)).1 =
        (b₀.processLocal pb now (b₀.stamp fresh env.header) env.payload identity).1 := by
      simp [step, hr, processMessage]
    rw [hr1, ← hc]
    refine Or.inl ⟨?_, fun t => ?_⟩
    · rw [mem_clients_processLocal]
      split_ifs <;> simp [hne]
    · rw [subscribed_processLocal_of_ne now _ env.payload hne, subscribed_congr hs]
  | fromPeer fresh now env =>
    obtain ⟨hc, hs⟩ := @processFromPeer_frame ω pb b fresh now env
    exact Or.inl ⟨by simp only [step, hc], subscribed_congr hs c⟩
  | sweep now =>
    have hw : (b.sweep now).WellFormed := h.sweep now
    by_cases hc : c ∈ (b.sweep now).clients
    · exact Or.inl ⟨iff_of_true hc (mem_clients_of_sweep h now hc), subscribed_sweep h now hc⟩
    · exact Or.inr ⟨⟨now, rfl⟩, hc, fun t ht => hc (hw.known_of_subscribed ht)⟩
  | broadcastStats now => exact Or.inl ⟨Iff.rfl, fun _ => Iff.rfl⟩
  | addPeer key peer =>
    rw [step, addPeer_frame]
    exact Or.inl ⟨Iff.rfl, fun _ => Iff.rfl⟩
  | removePeer key => exact Or.inl ⟨Iff.rfl, fun _ => Iff.rfl⟩

theorem subscribed_of_others (h : b.WellFormed) {e : Event ω} {c t : String}
    (he : e.sender ≠ some c)
    (hsweep : ∀ now, e = .sweep now → ∀ c ∈ b.clients, c ∈ (b.sweep now).clients)
    (hs : b.Subscribed c t) : (b.step pb e).1.Subscribed c t := by
  rcases @step_of_others ω pb b h e c he with ⟨-, hsub⟩ | ⟨⟨now, rfl⟩, hc, -⟩
  · exact (hsub t).mpr hs
  · exact absurd (hsweep now rfl c (h.known_of_subscribed hs)) hc

end ZmqPubSub.Broker
