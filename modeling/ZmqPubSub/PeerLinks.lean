import ZmqPubSub.BrokerHistory
import ZmqPubSub.DiscoveryHistory

/-!
`m_peers` of one broker, changed by `connectToPeer` from any thread and by the callbacks of the
discovery thread, while the broker thread processes messages. The discovery thread updates its table
first and makes its callbacks afterwards, so other threads can get in between.
-/

namespace ZmqPubSub

open Containers TransitionSystem Discovery BrokerDiscovery

structure PeerLinks (ω : Type*) where
  broker : Broker ω
  discovery : BrokerDiscovery
  /-- What the discovery thread has still to call for the datagram or the expiry it is at. -/
  callbacks : List LinkEvent := []

namespace PeerLinks

variable {ω : Type*}

inductive Event (ω : Type*)
  /-- `worker` is what `addPeer` makes for the call. -/
  | connectToPeer (address : String) (worker : ω)
  | onDatagram (senderIp data : String) (now : Time)
  | expireStale (now : Time)
  /-- The discovery thread calls `addPeer` or `removePeer`. -/
  | callback (worker : ω)
  /-- The broker thread, which does not touch `m_peers`. -/
  | broker (e : Broker.Event ω)

def step (pb : Protobuf) (s : PeerLinks ω) : Event ω → Option (PeerLinks ω)
  | .connectToPeer address worker => some { s with broker := s.broker.addPeer address worker }
  | .onDatagram senderIp data now =>
    if s.callbacks ≠ [] then none
    else
      let (discovery, call) := s.discovery.onDatagram senderIp data now
      some { s with discovery := discovery, callbacks := call.toList.map fun c => .dial c.1 c.2 }
  | .expireStale now =>
    if s.callbacks ≠ [] then none
    else
      let (discovery, lost) := s.discovery.expireStale now
      some { s with discovery := discovery, callbacks := lost.map .drop }
  | .callback worker =>
    match s.callbacks with
    | [] => none
    | .dial uuid _ :: rest =>
      some { s with broker := s.broker.addPeer uuid worker, callbacks := rest }
    | .drop uuid :: rest => some { s with broker := s.broker.removePeer uuid, callbacks := rest }
  -- `m_peers` changes by the events above only
  | .broker (.addPeer _ _) => none
  | .broker (.removePeer _) => none
  | .broker e => some { s with broker := (s.broker.step pb e).1 }

def Initial (s : PeerLinks ω) : Prop :=
  s.broker.Initial ∧ s.discovery.selfUuid = s.broker.brokerId ∧ s.discovery.dialed = ∅ ∧
    s.callbacks = []

variable {pb : Protobuf} {s s' : PeerLinks ω} {e : Event ω} {address : String} {worker : ω}

inductive Fires (s : PeerLinks ω) : Event ω → PeerLinks ω → Prop
  | connectToPeer (address : String) (worker : ω) :
      Fires s (.connectToPeer address worker) { s with broker := s.broker.addPeer address worker }
  | ignore {senderIp data : String} {now : Time} : s.discovery.qualifying data = none →
      Fires s (.onDatagram senderIp data now) { s with callbacks := [] }
  | heard {senderIp data : String} {now : Time} {beacon : Beacon} {entry : PeerEntry}
      {callbacks : List LinkEvent} : s.discovery.qualifying data = some beacon →
      (∀ c ∈ callbacks, c.uuid = beacon.uuid) →
      Fires s (.onDatagram senderIp data now)
        { s with discovery := { s.discovery with
                   dialed := s.discovery.dialed.insert beacon.uuid entry }
                 callbacks := callbacks }
  | expireStale (now : Time) :
      Fires s (.expireStale now) { s with discovery := (s.discovery.expireStale now).1
                                          callbacks := (s.discovery.expireStale now).2.map .drop }
  | dial {uuid address : String} {rest : List LinkEvent} (worker : ω) :
      s.callbacks = .dial uuid address :: rest → Fires s (.callback worker)
        { s with broker := s.broker.addPeer uuid worker, callbacks := rest }
  | drop {uuid : String} {rest : List LinkEvent} (worker : ω) :
      s.callbacks = .drop uuid :: rest → Fires s (.callback worker)
        { s with broker := s.broker.removePeer uuid, callbacks := rest }
  | broker {e : Broker.Event ω} {b : Broker ω} : b.peers = s.broker.peers →
      Fires s (.broker e) { s with broker := b }

theorem step_fires (h : s.step pb e = some s') : s.Fires e s' := by
  cases e with
  | connectToPeer address worker =>
    obtain rfl := Option.some.inj h
    exact .connectToPeer address worker
  | onDatagram senderIp data now =>
    simp only [step, onDatagram_eq] at h
    split_ifs at h
    cases hq : s.discovery.qualifying data with
    | none =>
      obtain rfl : { s with callbacks := [] } = s' := by simpa [hq] using h
      exact .ignore hq
    | some beacon =>
      rw [hq] at h
      obtain rfl := Option.some.inj h
      refine .heard hq ?_
      intro c hc
      simp only [List.mem_map, Option.mem_toList] at hc
      obtain ⟨call, hcall, rfl⟩ := hc
      split_ifs at hcall
      obtain rfl := Option.some.inj hcall
      rfl
  | expireStale now =>
    simp only [step] at h
    split_ifs at h
    obtain rfl := Option.some.inj h
    exact .expireStale now
  | callback worker =>
    simp only [step] at h
    split at h
    · cases h
    · next hc =>
      obtain rfl := Option.some.inj h
      exact .dial worker hc
    · next hc =>
      obtain rfl := Option.some.inj h
      exact .drop worker hc
  | broker e =>
    have hb : ∀ e : Broker.Event ω, (∀ key peer, e ≠ .addPeer key peer) →
        (∀ key, e ≠ .removePeer key) → (s.broker.step pb e).1.peers = s.broker.peers :=
      fun e ha hr => Broker.step_peers ha hr
    cases e with
    | addPeer key peer => cases h
    | removePeer key => cases h
    | _ =>
      obtain rfl := Option.some.inj h
      exact .broker (hb _ (by simp) (by simp))

/-- No qualifying beacon carries `address` in the place of its uuid. -/
def NotNamed (address : String) (s : PeerLinks ω) : Event ω → Prop
  | .onDatagram _ data _ => ∀ beacon ∈ s.discovery.qualifying data, beacon.uuid ≠ address
  | _ => True

instance (address : String) (s : PeerLinks ω) : DecidablePred (NotNamed address s)
  | .onDatagram _ data _ =>
    inferInstanceAs (Decidable (∀ beacon ∈ s.discovery.qualifying data, beacon.uuid ≠ address))
  | .connectToPeer _ _ => isTrue trivial
  | .expireStale _ => isTrue trivial
  | .callback _ => isTrue trivial
  | .broker _ => isTrue trivial

/-- Discovery does not know of `address`. -/
structure Unnamed (address : String) (s : PeerLinks ω) : Prop where
  dialed : address ∉ s.discovery.dialed
  callbacks : ∀ c ∈ s.callbacks, c.uuid ≠ address

theorem unnamed_initial (h : s.Initial) (address : String) : s.Unnamed address := by
  obtain ⟨-, -, hd, hc⟩ := h
  refine ⟨?_, ?_⟩
  · rw [hd]
    exact AList.notMem_empty address
  · simp [hc]

theorem Unnamed.step (h : s.Unnamed address) (hn : s.NotNamed address e)
    (hs : s.step pb e = some s') : s'.Unnamed address := by
  cases step_fires hs with
  | connectToPeer => exact ⟨h.dialed, h.callbacks⟩
  | ignore => exact ⟨h.dialed, by simp⟩
  | heard hq hc =>
    have hne := hn _ hq
    refine ⟨fun hm => ?_, fun c hcm => hc c hcm ▸ hne⟩
    rcases AList.mem_insert _ |>.mp hm with he | hm
    · exact hne he.symm
    · exact h.dialed hm
  | expireStale now =>
    refine ⟨fun hm => ?_, ?_⟩
    · exact h.dialed (s.discovery.mem_dialed_expireStale now address |>.mp hm).1
    · -- only what was dialed is lost
      simp only [List.mem_map]
      rintro c ⟨uuid, hu, rfl⟩ rfl
      obtain ⟨entry, he, -⟩ := s.discovery.mem_expireStale now uuid |>.mp hu
      exact h.dialed (mem_table_iff.mpr ⟨entry, he⟩)
  | dial worker hc => exact ⟨h.dialed, fun c hm => h.callbacks c (by rw [hc]; exact .tail _ hm)⟩
  | drop worker hc => exact ⟨h.dialed, fun c hm => h.callbacks c (by rw [hc]; exact .tail _ hm)⟩
  | broker => exact ⟨h.dialed, h.callbacks⟩

theorem lookup_addPeer_of_some {b : Broker ω} {key : String} {other : ω}
    (h : b.peers.lookup address = some worker) :
    (b.addPeer key other).peers.lookup address = some worker := by
  unfold Broker.addPeer
  split_ifs with hk
  · exact h
  · have hne : address ≠ key := by
      rintro rfl
      exact hk (mem_table_iff.mpr ⟨worker, h⟩)
    exact (AList.lookup_insert_ne hne).trans h

theorem Unnamed.lookup_step (h : s.Unnamed address) (hs : s.step pb e = some s')
    (hl : s.broker.peers.lookup address = some worker) :
    s'.broker.peers.lookup address = some worker := by
  cases step_fires hs with
  | connectToPeer => exact lookup_addPeer_of_some hl
  | ignore => exact hl
  | heard => exact hl
  | expireStale => exact hl
  | dial => exact lookup_addPeer_of_some hl
  | @drop uuid rest _ hc =>
    have hne : uuid ≠ address := h.callbacks (.drop uuid) (hc ▸ List.mem_cons_self)
    exact (AList.lookup_erase_ne hne.symm).trans hl
  | broker hp => exact hp ▸ hl

def someBroker : PeerLinks ℕ :=
  { broker := { brokerId := "4f0c1a52-0000-4000-8000-00000000000a" }
    discovery := { cluster := "default", selfUuid := "4f0c1a52-0000-4000-8000-00000000000a",
                   routerPort := 5555 } }

def manual : PeerLinks ℕ :=
  { someBroker with broker := someBroker.broker.addPeer "tcp://10.0.0.9:5555" 1 }

/-- The discovery thread dials a peer and drops it after a timeout. -/
def dialedAndDropped (uuid : String) : List (Event ℕ) :=
  [.onDatagram "10.0.0.7" (encodeBeacon "default" uuid 6000) 0, .callback 2,
    .expireStale (seconds 6), .callback 3]

/-- A beacon with the address of the link as its uuid: `addPeer` refuses it, but when discovery
drops the peer, the link is gone. -/
theorem beacon_drops_manual_link :
    ∃ s, someBroker.Initial ∧ "tcp://10.0.0.9:5555" ∉ someBroker.broker.peers ∧
      someBroker.step BrokerProto.proto3 (.connectToPeer "tcp://10.0.0.9:5555" 1) = some manual ∧
      exec (step BrokerProto.proto3) manual (dialedAndDropped "tcp://10.0.0.9:5555") = some s ∧
      "tcp://10.0.0.9:5555" ∉ s.broker.peers :=
  ⟨(exec (step BrokerProto.proto3) manual (dialedAndDropped "tcp://10.0.0.9:5555")).get
      (by decide +kernel),
    ⟨⟨_, 0, rfl⟩, rfl, rfl, rfl⟩, by decide, rfl, by simp, by decide +kernel⟩

/-- A manually configured link stays in place while no beacon carries its address in the place of a
uuid. -/
theorem manual_link_stays {s₀ s₁ s₂ : PeerLinks ω} {tr₁ tr₂ : List (Event ω × PeerLinks ω)}
    (h₀ : s₀.Initial) (h₁ : Run (guarded (NotNamed address) (ofFun (step pb))) s₀ tr₁ s₁)
    (hnew : address ∉ s₁.broker.peers)
    (hc : s₁.step pb (.connectToPeer address worker) = some s₂)
    (h₂ : Run (guarded (NotNamed address) (ofFun (step pb))) s₂ tr₂ s) :
    s.broker.peers.lookup address = some worker := by
  have hun : s₁.Unnamed address := h₁.invariant (P := Unnamed address) (unnamed_initial h₀ address)
    fun _ _ _ ht hs => ht.step hs.1 hs.2
  have hun₂ : s₂.Unnamed address := hun.step (e := .connectToPeer address worker) trivial hc
  obtain rfl := Option.some.inj hc
  have hl : (s₁.broker.addPeer address worker).peers.lookup address = some worker := by
    rw [Broker.addPeer, if_neg hnew]
    exact AList.lookup_insert _
  refine (h₂.invariant (P := fun s => s.Unnamed address ∧
    s.broker.peers.lookup address = some worker) ⟨hun₂, hl⟩ ?_).2
  rintro t e u ⟨htu, htl⟩ ⟨hn, hs⟩
  exact ⟨htu.step hn hs, htu.lookup_step hs htl⟩

theorem manual_link_stays_manual :
    ∃ s tr, Run (guarded (NotNamed "tcp://10.0.0.9:5555") (ofFun (step BrokerProto.proto3))) manual
        tr s ∧ tr.map Prod.fst = dialedAndDropped "feedbeef" ∧
      s.broker.peers.lookup "tcp://10.0.0.9:5555" = some 1 := by
  have hr : Run (guarded (NotNamed "tcp://10.0.0.9:5555") (ofFun (step BrokerProto.proto3))) manual
      (trace (step BrokerProto.proto3) manual (dialedAndDropped "feedbeef"))
      ((exec (step BrokerProto.proto3) manual (dialedAndDropped "feedbeef")).get
        (by decide +kernel)) :=
    exec_guarded (by decide +kernel) (by simp)
  exact ⟨_, _, hr, rfl,
    manual_link_stays ⟨⟨_, 0, rfl⟩, rfl, rfl, rfl⟩ (.nil someBroker) (by decide) rfl hr⟩

end PeerLinks

end ZmqPubSub
