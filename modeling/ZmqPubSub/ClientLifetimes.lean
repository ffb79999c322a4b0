import ZmqPubSub.BrokerClients

/-!
The zombie sweep as the loop of `run` performs it, with an iterator into the table it erases from,
and who is in `m_clients` after any run, as a function of the messages and the sweeps of the run.
-/

namespace ZmqPubSub.Broker

open Containers TransitionSystem SubscriptionRegistry

variable {ω : Type*} {pb : Protobuf} {b b' : Broker ω}

/-- `std::next` of the iterator at `key`; `none` is `end()`. -/
def next (clients : Table String ClientState) (key : String) : Option String :=
  (clients.keys.dropWhile fun k => k ≠ key).tail.head?

/-- The loop of the sweep, with the iterator and the clients it has visited. -/
def sweepFrom (now : Time) : ℕ → Broker ω → Option String → List String →
    Broker ω × Option String × List String
  | 0, b, it, visited => (b, it, visited)
  | _ + 1, b, none, visited => (b, none, visited)
  | fuel + 1, b, some id, visited =>
    match b.clients.lookup id with
    | none => (b, some id, visited)
    | some client =>
      -- taken before the entry can be erased
      let nextIt := next b.clients id
      if now - client.lastSeen > clientTimeout then
        sweepFrom now fuel (b.removeClient id) nextIt (visited ++ [id])
      else sweepFrom now fuel b nextIt (visited ++ [id])

section

variable {clients : Table String ClientState} {e : Sigma fun _ : String => ClientState}
  {front rest : List (Sigma fun _ : String => ClientState)}

theorem notMem_front (h : clients.entries = front ++ e :: rest) : e.1 ∉ front.keys := by
  have hn : (front.keys ++ e.1 :: rest.keys).Nodup := by
    simpa [List.NodupKeys, List.keys, h] using clients.nodupKeys
  exact fun hm => (List.nodup_append.mp hn).2.2 _ hm _ List.mem_cons_self rfl

theorem next_of_entries (h : clients.entries = front ++ e :: rest) :
    next clients e.1 = rest.keys.head? := by
  have hk : clients.keys = front.keys ++ e.1 :: rest.keys := by
    simp [AList.keys, List.keys, h]
  rw [next, hk, List.dropWhile_append_of_pos]
  · simp
  · intro k hkf
    have hne : k ≠ e.1 := fun he => notMem_front h (he ▸ hkf)
    simpa using hne

theorem entries_erase_middle (h : clients.entries = front ++ e :: rest) :
    (clients.erase e.1).entries = front ++ rest := by
  change clients.entries.kerase e.1 = _
  rw [h, List.kerase_append_right (notMem_front h), List.kerase_cons_eq rfl]

end

theorem sweepFrom_eq (now : Time) (front : List (Sigma fun _ : String => ClientState))
    {l : List (Sigma fun _ : String => ClientState)} {fuel : ℕ} (hf : l.length ≤ fuel)
    (hb : b.clients.entries = front ++ l) (visited : List String) :
    sweepFrom now fuel b l.keys.head? visited =
      (l.foldl (fun b e => if now - e.2.lastSeen > clientTimeout then b.removeClient e.1 else b) b,
        none, visited ++ l.keys) := by
  induction l generalizing b front fuel visited with
  | nil => cases fuel <;> simp [sweepFrom]
  | cons e l ih =>
    cases fuel with
    | zero => simp at hf
    | succ fuel =>
      have hlen : l.length ≤ fuel := Nat.le_of_succ_le_succ hf
      have hl : b.clients.lookup e.1 = some e.2 :=
        AList.mem_lookup_iff.mpr (hb ▸ List.mem_append_right _ List.mem_cons_self)
      simp only [List.keys_cons, List.head?_cons, sweepFrom, hl, next_of_entries hb,
        List.foldl_cons]
      split_ifs
      · -- the iterator was moved on before the entry under it was erased
        rw [ih (b := b.removeClient e.1) front hlen (entries_erase_middle hb), List.append_assoc]
        rfl
      · rw [ih (front ++ [e]) hlen (by rw [hb, List.append_assoc]; rfl), List.append_assoc]
        rfl

/-- The loop visits every client once and does what `sweep` says. -/
theorem sweepFrom_begin (now : Time) {fuel : ℕ} (hf : b.clients.keys.length ≤ fuel) :
    sweepFrom now fuel b b.clients.keys.head? [] = (b.sweep now, none, b.clients.keys) := by
  have hlen : b.clients.entries.length ≤ fuel := by simpa [AList.keys, List.keys] using hf
  exact sweepFrom_eq now [] hlen rfl []

theorem sweep_of_fresh (now : Time) {c : String} {client : ClientState}
    (hc : b.clients.lookup c = some client) (hf : ¬ now - client.lastSeen > clientTimeout) :
    (b.sweep now).clients.lookup c = some client ∧
    (b.sweep now).subscriptions.subscriptionsOf c = b.subscriptions.subscriptionsOf c := by
  have hother : ∀ e ∈ b.clients.entries, now - e.2.lastSeen > clientTimeout → c ≠ e.1 := by
    rintro e he hst rfl
    have hl := AList.mem_lookup_iff.mpr he
    obtain rfl := Option.some.inj (hl.symm.trans hc)
    exact hf hst
  refine sweep_induction (P := fun b' => b'.clients.lookup c = some client ∧
    b'.subscriptions.subscriptionsOf c = b.subscriptions.subscriptionsOf c) now ⟨hc, rfl⟩ ?_
  rintro e he hst b' ⟨hl, hs⟩
  have hne := hother e he hst
  exact ⟨(AList.lookup_erase_ne hne).trans hl, (subscriptionsOf_removeClient_of_ne hne).trans hs⟩

theorem lookup_sweep (h : b.WellFormed) (now : Time) (c : String) :
    (b.sweep now).clients.lookup c =
      (b.clients.lookup c).filter fun client => now - client.lastSeen ≤ clientTimeout := by
  cases hc : b.clients.lookup c with
  | none =>
    have hn : c ∉ (b.sweep now).clients := fun hm =>
      AList.lookup_eq_none.mp hc (mem_clients_of_sweep h now hm)
    exact AList.lookup_eq_none.mpr hn
  | some client =>
    by_cases hst : now - client.lastSeen > clientTimeout
    · have hn : c ∉ (b.sweep now).clients := by
        intro hm
        have hkeep := ((sweepLoop_spec now b.clients.entries h c).1.mp hm).2
        exact hkeep ⟨c, client⟩ (AList.mem_lookup_iff.mp hc) rfl hst
      rw [AList.lookup_eq_none.mpr hn, Option.filter_some,
        if_neg (mt of_decide_eq_true (not_le.mpr hst))]
    · rw [(sweep_of_fresh now hc hst).1, Option.filter_some,
        if_pos (decide_eq_true (not_lt.mp hst))]

/-- The last message of `c` came at `t`, was not a DISCONNECT, and no sweep since found it too
old. -/
def LastHeard (c : String) (events : List (Event ω)) (t : Time) : Prop :=
  ∃ before fresh env after, events = before ++ .fromRouter fresh t env c :: after ∧
    env.key ≠ Keys.disconnect ∧ (∀ e ∈ after, e.sender ≠ some c) ∧
    ∀ now, .sweep now ∈ after → ¬ now - t > clientTimeout

variable {c : String} {events : List (Event ω)}

theorem not_lastHeard_nil (t : Time) : ¬ LastHeard (ω := ω) c [] t := by
  rintro ⟨before, fresh, env, after, he, -⟩
  simp at he

theorem lastHeard_own (fresh : Uuid) (now : Time) (env : Envelope) (t : Time) :
    LastHeard c (events ++ [.fromRouter fresh now env c]) t ↔
      env.key ≠ Keys.disconnect ∧ t = now := by
  constructor
  · rintro ⟨before, fresh', env', after, he, hkey, hafter, -⟩
    rcases append_singleton_eq he with ⟨-, he⟩ | ⟨after', rfl⟩
    · cases he
      exact ⟨hkey, rfl⟩
    · -- the new message would be one after the last
      rw [List.append_assoc, List.append_cancel_left_eq, List.cons_append,
        List.cons.injEq] at he
      exact absurd rfl (hafter (.fromRouter fresh now env c) (he.2 ▸ by simp))
  · rintro ⟨hkey, rfl⟩
    exact ⟨events, fresh, env, [], rfl, hkey, by simp, by simp⟩

theorem lastHeard_other {e : Event ω} (hs : e.sender ≠ some c) (t : Time) :
    LastHeard c (events ++ [e]) t ↔
      LastHeard c events t ∧ ∀ now, e = .sweep now → ¬ now - t > clientTimeout := by
  constructor
  · rintro ⟨before, fresh, env, after, he, hkey, hafter, hsweep⟩
    rcases append_singleton_eq he with ⟨-, rfl⟩ | ⟨after', rfl⟩
    · exact absurd rfl hs
    · rw [List.append_assoc, List.append_cancel_left_eq, List.cons_append,
        List.cons.injEq] at he
      obtain ⟨-, rfl⟩ := he
      refine ⟨⟨before, fresh, env, after', rfl, hkey, ?_, ?_⟩, ?_⟩
      · exact fun x hx => hafter x (List.mem_append_left _ hx)
      · exact fun now hx => hsweep now (List.mem_append_left _ hx)
      · rintro now rfl
        exact hsweep now (List.mem_append_right _ List.mem_cons_self)
  · rintro ⟨⟨before, fresh, env, after, rfl, hkey, hafter, hsweep⟩, hnow⟩
    refine ⟨before, fresh, env, after ++ [e], by simp, hkey, ?_, ?_⟩
    · intro x hx
      rcases List.mem_append.mp hx with hx | hx
      · exact hafter x hx
      · rw [List.mem_singleton.mp hx]
        exact hs
    · intro now hx
      rcases List.mem_append.mp hx with hx | hx
      · exact hsweep now hx
      · exact hnow now (List.mem_singleton.mp hx).symm

theorem lookup_processFromRouter_self (fresh : Uuid) (now : Time) (env : Envelope) (c : String) :
    (b.processFromRouter pb fresh now env c).1.clients.lookup c =
      if env.key = Keys.disconnect then none else some ⟨c, now⟩ := by
  obtain ⟨b₀, hr, -⟩ := @processFromRouter_eq ω pb b fresh now env c
  have hr1 : (b.processFromRouter pb fresh now env c).1 =
      (b₀.processLocal pb now (b₀.stamp fresh env.header) env.payload c).1 := by
    simp [hr, processMessage]
  rw [hr1]
  rcases @processLocal_cases ω pb b₀ now (b₀.stamp fresh env.header) env.payload c with
    ⟨hd, he⟩ | ⟨hd, hc, -⟩
  · have hkey : env.key = Keys.disconnect := (stamp_handlerKey fresh env.header).symm.trans hd
    rw [he, if_pos hkey]
    exact AList.lookup_erase _ _
  · have hkey : env.key ≠ Keys.disconnect :=
      fun h => hd ((stamp_handlerKey fresh env.header).trans h)
    rw [hc, if_neg hkey]
    exact AList.lookup_insert _

theorem lookup_processFromRouter_of_ne (fresh : Uuid) (now : Time) (env : Envelope) {s : String}
    (hne : c ≠ s) :
    (b.processFromRouter pb fresh now env s).1.clients.lookup c = b.clients.lookup c := by
  obtain ⟨b₀, hr, hc, -⟩ := @processFromRouter_eq ω pb b fresh now env s
  rw [hr, ← hc]
  exact (processLocal_of_ne now (b₀.stamp fresh env.header) env.payload hne).1

/-- The table has the time of each client's last message. -/
def Timed (c : String) (b : Broker ω) (events : List (Event ω)) : Prop :=
  ∀ t, (b.clients.lookup c).map ClientState.lastSeen = some t ↔ LastHeard c events t

theorem Timed.of_lookup {e : Event ω} (h : Timed c b events) (hs : e.sender ≠ some c)
    (hsweep : ∀ now, e ≠ .sweep now) (hl : b'.clients.lookup c = b.clients.lookup c) :
    Timed c b' (events ++ [e]) := by
  intro t
  rw [hl, h t, lastHeard_other hs, and_iff_left fun now he => absurd he (hsweep now)]

theorem Timed.step (hw : b.WellFormed) (h : Timed c b events) (e : Event ω) :
    Timed c (b.step pb e).1 (events ++ [e]) := by
  cases e with
  | fromRouter fresh now env s =>
    by_cases hs : s = c
    · subst hs
      intro t
      rw [lastHeard_own]
      change (AList.lookup s (b.processFromRouter pb fresh now env s).1.clients).map _ = _ ↔ _
      rw [lookup_processFromRouter_self]
      split_ifs with hd
      · simp [hd]
      · simp [hd, eq_comm]
    · exact h.of_lookup (by simpa [Event.sender] using hs) (by simp)
        (lookup_processFromRouter_of_ne fresh now env (Ne.symm hs))
  | fromPeer fresh now env =>
    refine h.of_lookup (by simp [Event.sender]) (by simp) ?_
    exact congrArg (AList.lookup c) (processFromPeer_frame fresh now env).1
  | sweep now =>
    intro t
    rw [lastHeard_other (by simp [Event.sender]), ← h t]
    change (AList.lookup c (b.sweep now).clients).map _ = _ ↔ _
    rw [lookup_sweep hw]
    simp only [Option.map_eq_some_iff, Option.filter_eq_some_iff, decide_eq_true_eq,
      Event.sweep.injEq, forall_eq']
    constructor
    · rintro ⟨client, ⟨hl, hf⟩, rfl⟩
      exact ⟨⟨client, hl, rfl⟩, not_lt.mpr hf⟩
    · rintro ⟨⟨client, hl, rfl⟩, hf⟩
      exact ⟨client, ⟨hl, not_lt.mp hf⟩, rfl⟩
  | broadcastStats now => exact h.of_lookup (by simp [Event.sender]) (by simp) rfl
  | addPeer key peer =>
    refine h.of_lookup (by simp [Event.sender]) (by simp) ?_
    rw [Broker.step, addPeer_frame]
  | removePeer key => exact h.of_lookup (by simp [Event.sender]) (by simp) rfl

theorem timed_of_run {b₀ : Broker ω} {tr : List (Event ω × Broker ω)} (h₀ : b₀.Initial)
    (hr : Run (Steps pb) b₀ tr b) (c : String) : Timed c b (tr.map Prod.fst) := by
  refine (hr.traceInvariant (P := fun tr b => b.WellFormed ∧ Timed c b (tr.map Prod.fst)) ?_ ?_).2
  · refine ⟨wellFormed_initial h₀, fun t => ?_⟩
    obtain ⟨id, t₀, rfl⟩ := h₀
    exact iff_of_false (by simp) (not_lastHeard_nil t)
  · rintro tr b e _ - ⟨hw, ht⟩ rfl
    rw [List.map_append]
    exact ⟨hw.step e, ht.step hw e⟩

/-- After any run, the clients in the table are those whose last message was not a DISCONNECT and
has not been found too old by a sweep. A sweep removes exactly the clients whose last message is
older than the timeout, with all their subscriptions, visits every client once and leaves the
others as they are. -/
theorem clients_follow_messages {b₀ : Broker ω} {tr : List (Event ω × Broker ω)} (h₀ : b₀.Initial)
    (hr : Run (Steps pb) b₀ tr b) :
    (∀ c, c ∈ b.clients ↔ ∃ t, LastHeard c (tr.map Prod.fst) t) ∧
    ∀ now,
      (∀ c ∈ b.clients, c ∉ (b.sweep now).clients ↔
        ∃ t, LastHeard c (tr.map Prod.fst) t ∧ now - t > seconds 10) ∧
      (∀ c, c ∉ (b.sweep now).clients → (b.sweep now).subscriptions.subscriptionsOf c = none ∧
        ∀ t, c ∉ ((b.sweep now).subscriptions.subscribersOf t).getD []) ∧
      (∀ c ∈ (b.sweep now).clients, c ∈ b.clients ∧
        (b.sweep now).clients.lookup c = b.clients.lookup c ∧
        (b.sweep now).subscriptions.subscriptionsOf c = b.subscriptions.subscriptionsOf c) ∧
      b.clients.keys.Nodup ∧
      ∀ fuel ≥ b.clients.keys.length,
        sweepFrom now fuel b b.clients.keys.head? [] = (b.sweep now, none, b.clients.keys) := by
  have hw : b.WellFormed := Reachable.wellFormed ⟨b₀, tr, h₀, hr⟩
  have ht := timed_of_run h₀ hr
  refine ⟨fun c => ?_, fun now => ⟨fun c hc => ?_, fun c hc => ?_, fun c hc => ?_,
    b.clients.keys_nodup, fun fuel hf => sweepFrom_begin now hf⟩⟩
  · rw [← AList.lookup_isSome, ← Option.isSome_map, Option.isSome_iff_exists]
    exact exists_congr (ht c)
  · obtain ⟨client, hl⟩ := mem_table_iff.mp hc
    have hlast : ∀ t, client.lastSeen = t ↔ LastHeard c (tr.map Prod.fst) t := by
      intro t
      rw [← ht c t, hl, Option.map_some, Option.some.injEq]
    rw [← AList.lookup_eq_none, lookup_sweep hw, hl, Option.filter_some]
    simp only [← hlast, exists_eq_left', ite_eq_right_iff, decide_eq_true_eq, reduceCtorEq,
      imp_false, not_le]
    rfl
  · exact ⟨(hw.sweep now).subscriptionsOf_eq_none hc,
      fun t hs => hc ((hw.sweep now).subscriber_known hs)⟩
  · obtain ⟨client, hl⟩ := mem_table_iff.mp hc
    have hb := hl
    rw [lookup_sweep hw, Option.filter_eq_some_iff, decide_eq_true_eq] at hb
    obtain ⟨hb, hfresh⟩ := hb
    exact ⟨mem_clients_of_sweep hw now hc, hl.trans hb.symm,
      (sweep_of_fresh now hb (not_lt.mpr hfresh)).2⟩

def silentClient : Broker Unit :=
  (twoClients.step BrokerProto.proto3 (.fromRouter ⟨"00000000-0000-4000-8000-00000000000a", rfl⟩
    (seconds 9) (heartbeatEnvelope "client-b") "client-b")).1

theorem clients_follow_messages_silentClient :
    "client-a" ∈ silentClient.clients ∧
    "client-a" ∉ (silentClient.sweep (seconds 11)).clients ∧
    (silentClient.sweep (seconds 11)).subscriptions.subscriptionsOf "client-a" = none ∧
    "client-b" ∈ (silentClient.sweep (seconds 11)).clients := by
  obtain ⟨b₀, tr, h₀, hr⟩ := twoClients_reachable
  have h := (clients_follow_messages h₀ (hr.snoc (show Steps _ _ _ silentClient from rfl))).2
    (seconds 11)
  have hgone : "client-a" ∉ (silentClient.sweep (seconds 11)).clients := by decide
  exact ⟨by decide, hgone, (h.2.1 "client-a" hgone).1, by decide⟩

end ZmqPubSub.Broker
