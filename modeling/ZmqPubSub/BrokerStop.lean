import Mathlib.Logic.Function.Basic
import ZmqPubSub.Containers
import ZmqPubSub.TransitionSystem

/-!
The threads of a `ZmqBroker` while `stop` runs: its caller, the broker thread, the discovery thread
and the peer workers. Joins and the untimed `push` block; every other call returns by itself, and
no lock is held across a join. A step whose thread is blocked is disabled.
-/

namespace ZmqPubSub

open Containers TransitionSystem

/-- Where the caller of `stop` stands. -/
inductive Stop (ω : Type*)
  | notCalled
  | stopDiscovery
  | joinDiscovery
  | stopQueue
  | joinBroker
  | swapPeers
  /-- In the loop over the peers that were in the table. -/
  | stopPeers (rest : List ω)
  | joinPeer (peer : ω) (rest : List ω)
  | returned
deriving DecidableEq

def Stop.Early {ω : Type*} : Stop ω → Prop
  | .notCalled | .stopDiscovery | .joinDiscovery => True
  | _ => False

inductive DiscoveryThread (ω : Type*)
  | looping
  /-- In `expireStale`, with the keys still to be passed to `removePeer`. -/
  | dropping (lost : List String)
  /-- In the `worker->stop()` of `removePeer`. -/
  | joining (peer : ω) (lost : List String)
  | exited
deriving DecidableEq

inductive WorkerThread
  | notStarted
  | looping
  /-- In the message callback, at `m_peerInboundQueue.push`. -/
  | pushing
  | exited
deriving DecidableEq

structure PeerWorker where
  running : Bool := true
  thread : WorkerThread := .notStarted
deriving DecidableEq

def PeerWorker.Alive (w : PeerWorker) : Prop := w.thread = .looping ∨ w.thread = .pushing

instance (w : PeerWorker) : Decidable w.Alive := inferInstanceAs (Decidable (_ ∨ _))

/-- A `ZmqBroker` as its threads see it. -/
structure BrokerThreads (ω : Type*) where
  stop : Stop ω := .notCalled
  running : Bool := true
  brokerExited : Bool := false
  discoveryRunning : Bool := true
  /-- `exited` from the start if discovery is not enabled. -/
  discovery : DiscoveryThread ω
  /-- The number of messages in `m_peerInboundQueue`. -/
  queued : ℕ := 0
  queueStopped : Bool := false
  peers : Table String ω := ∅
  workers : ω → PeerWorker := fun _ => {}

namespace BrokerThreads

variable {ω : Type*}

def maxSize : ℕ := 5000

section

variable (s : BrokerThreads ω)

def QueueFull : Prop := maxSize ≤ s.queued ∧ s.queueStopped = false

instance : Decidable s.QueueFull := inferInstanceAs (Decidable (_ ∧ _))

def Initial : Prop :=
  ∃ discovery, (discovery = .looping ∨ discovery = .exited) ∧ s = { discovery := discovery }

def CallerBlocked : Prop :=
  match s.stop with
  | .joinDiscovery => s.discovery ≠ .exited
  | .joinBroker => s.brokerExited = false
  | .joinPeer peer _ => (s.workers peer).Alive
  | _ => False

def DiscoveryBlocked : Prop :=
  match s.discovery with
  | .joining peer _ => (s.workers peer).Alive
  | _ => False

def WorkerBlocked (peer : ω) : Prop := (s.workers peer).thread = .pushing ∧ s.QueueFull

/-- `stop` has been called and every thread that is left is blocked. The broker thread never
blocks, so it must have ended. -/
def Deadlocked : Prop :=
  s.CallerBlocked ∧ s.brokerExited = true ∧ (s.discovery = .exited ∨ s.DiscoveryBlocked) ∧
    ∀ peer, (s.workers peer).Alive → s.WorkerBlocked peer

/-- Discovery joins a worker that waits for room in the queue, which nobody drains any more. The
caller of `stop` joins discovery before it stops the queue. -/
def Wedged : Prop :=
  s.brokerExited = true ∧ s.QueueFull ∧
    ∃ peer lost, s.discovery = .joining peer lost ∧ (s.workers peer).thread = .pushing

section

variable {s} {s' : BrokerThreads ω}

/-- Discovery ends before the queue is stopped, and the queue is stopped before anything else is
joined. -/
structure Ordered (s : BrokerThreads ω) : Prop where
  discovery : ¬ s.stop.Early → s.discovery = .exited
  queue : ¬ s.stop.Early → s.stop ≠ .stopQueue → s.queueStopped = true

theorem Initial.ordered (h : s.Initial) : s.Ordered := by
  obtain ⟨discovery, -, rfl⟩ := h
  exact ⟨fun he => absurd trivial he, fun he => absurd trivial he⟩

theorem Ordered.of_frame (h : s.Ordered) (hs : s'.stop = s.stop)
    (hq : s'.queueStopped = s.queueStopped)
    (hd : s.discovery = .exited → s'.discovery = .exited) : s'.Ordered :=
  ⟨fun he => hd (h.discovery (hs ▸ he)), fun he hne => hq ▸ h.queue (hs ▸ he) (hs ▸ hne)⟩

/-- Whoever waits, waits in the end for the wedge. -/
theorem Deadlocked.wedged (h : s.Deadlocked) (ho : s.Ordered) : s.Wedged := by
  obtain ⟨hc, hb, hd, hw⟩ := h
  cases hs : s.stop with
  | joinDiscovery =>
    have hne : s.discovery ≠ .exited := by simpa only [CallerBlocked, hs] using hc
    rcases hd with hd | hd
    · exact absurd hd hne
    · cases hj : s.discovery with
      | joining peer lost =>
        have ha : (s.workers peer).Alive := by simpa only [DiscoveryBlocked, hj] using hd
        obtain ⟨hp, hf⟩ := hw peer ha
        exact ⟨hb, hf, peer, lost, hj, hp⟩
      | looping => simp [DiscoveryBlocked, hj] at hd
      | dropping lost => simp [DiscoveryBlocked, hj] at hd
      | exited => exact absurd hj hne
  | joinBroker =>
    have hl : s.brokerExited = false := by simpa only [CallerBlocked, hs] using hc
    exact absurd (hl.symm.trans hb) Bool.false_ne_true
  | joinPeer peer rest =>
    have ha : (s.workers peer).Alive := by simpa only [CallerBlocked, hs] using hc
    have hf : s.QueueFull := (hw peer ha).2
    have hq := ho.queue (by simp [hs, Stop.Early]) (by simp [hs])
    exact absurd (hf.2.symm.trans hq) Bool.false_ne_true
  | notCalled => simp [CallerBlocked, hs] at hc
  | stopDiscovery => simp [CallerBlocked, hs] at hc
  | stopQueue => simp [CallerBlocked, hs] at hc
  | swapPeers => simp [CallerBlocked, hs] at hc
  | stopPeers rest => simp [CallerBlocked, hs] at hc
  | returned => simp [CallerBlocked, hs] at hc

theorem Wedged.of_frame (h : s'.Wedged) (hb : s'.brokerExited = s.brokerExited)
    (hf : s'.QueueFull → s.QueueFull)
    (hd : ∀ peer lost, s'.discovery = .joining peer lost → s.discovery = .joining peer lost)
    (hw : ∀ peer, (s'.workers peer).thread = .pushing → (s.workers peer).thread = .pushing) :
    s.Wedged := by
  obtain ⟨he, hq, peer, lost, hj, hp⟩ := h
  exact ⟨hb ▸ he, hf hq, peer, lost, hd peer lost hj, hw peer hp⟩

end

inductive Event (ω : Type*)
  | callStop | stopDiscovery | discoveryJoined | stopQueue | brokerJoined | swapPeers
  | stopPeer | peerJoined | returns
  | brokerPops | brokerExits
  /-- `onDatagram` dials a peer. -/
  | dial (key : String) (peer : ω)
  | expireStale (lost : List String)
  | removePeer
  | removedPeer
  | expired
  | discoveryExits
  /-- `connectToPeer` on any application thread. -/
  | connectToPeer (key : String) (peer : ω)
  | workerReceives (peer : ω)
  | workerPushes (peer : ω)
  | workerExits (peer : ω)
deriving DecidableEq

def Averts : Event ω → Prop
  | .brokerExits => ¬ (s.QueueFull ∧
      ∃ peer lost, s.discovery = .joining peer lost ∧ (s.workers peer).thread = .pushing)
  | .removePeer => ¬ (s.brokerExited = true ∧ s.QueueFull ∧ ∃ key lost peer,
      s.discovery = .dropping (key :: lost) ∧ s.peers.lookup key = some peer ∧
        (s.workers peer).thread = .pushing)
  | .workerReceives peer => ¬ (s.brokerExited = true ∧ s.QueueFull ∧
      ∃ lost, s.discovery = .joining peer lost)
  | .workerPushes peer => ¬ (s.brokerExited = true ∧ s.queueStopped = false ∧
      s.queued + 1 = maxSize ∧ ∃ peer' lost, s.discovery = .joining peer' lost ∧ peer' ≠ peer ∧
        (s.workers peer').thread = .pushing)
  | _ => True

end

variable [DecidableEq ω] (s : BrokerThreads ω)

def setThread (peer : ω) (thread : WorkerThread) : BrokerThreads ω :=
  { s with workers := Function.update s.workers peer { s.workers peer with thread := thread } }

/-- The first half of `ZmqWorker::stop`. -/
def stopWorker (peer : ω) : BrokerThreads ω :=
  { s with workers := Function.update s.workers peer { s.workers peer with running := false } }

/-- `addPeer` with a fresh worker, which is discarded unstarted if the key is taken. -/
def addPeer (key : String) (peer : ω) : Option (BrokerThreads ω) :=
  if (s.workers peer).thread ≠ .notStarted then none
  else if key ∈ s.peers then some s
  else some { s.setThread peer .looping with peers := s.peers.insert key peer }

def step : Event ω → Option (BrokerThreads ω)
  | .callStop =>
    if s.stop = .notCalled then some { s with running := false, stop := .stopDiscovery } else none
  | .stopDiscovery =>
    if s.stop = .stopDiscovery then
      some { s with discoveryRunning := false, stop := .joinDiscovery }
    else none
  | .discoveryJoined =>
    if s.stop = .joinDiscovery ∧ s.discovery = .exited then some { s with stop := .stopQueue }
    else none
  | .stopQueue =>
    if s.stop = .stopQueue then some { s with queueStopped := true, stop := .joinBroker } else none
  | .brokerJoined =>
    if s.stop = .joinBroker ∧ s.brokerExited then some { s with stop := .swapPeers } else none
  | .swapPeers =>
    if s.stop = .swapPeers then
      some { s with peers := ∅, stop := .stopPeers (s.peers.entries.map fun e => e.2) }
    else none
  | .stopPeer =>
    match s.stop with
    | .stopPeers (peer :: rest) => some { s.stopWorker peer with stop := .joinPeer peer rest }
    | _ => none
  | .peerJoined =>
    match s.stop with
    | .joinPeer peer rest =>
      if (s.workers peer).Alive then none else some { s with stop := .stopPeers rest }
    | _ => none
  | .returns => if s.stop = .stopPeers [] then some { s with stop := .returned } else none
  | .brokerPops =>
    if s.brokerExited ∨ s.queued = 0 then none else some { s with queued := s.queued - 1 }
  | .brokerExits =>
    if s.running ∨ s.brokerExited then none else some { s with brokerExited := true }
  | .dial key peer => if s.discovery = .looping then s.addPeer key peer else none
  | .expireStale lost =>
    if s.discovery = .looping then some { s with discovery := .dropping lost } else none
  | .removePeer =>
    match s.discovery with
    | .dropping (key :: lost) =>
      match s.peers.lookup key with
      | none => some { s with discovery := .dropping lost }
      | some peer => some { s.stopWorker peer with
          peers := s.peers.erase key, discovery := .joining peer lost }
    | _ => none
  | .removedPeer =>
    match s.discovery with
    | .joining peer lost =>
      if (s.workers peer).Alive then none else some { s with discovery := .dropping lost }
    | _ => none
  | .expired =>
    if s.discovery = .dropping [] then some { s with discovery := .looping } else none
  | .discoveryExits =>
    if s.discovery = .looping ∧ s.discoveryRunning = false then
      some { s with discovery := .exited }
    else none
  | .connectToPeer key peer => s.addPeer key peer
  | .workerReceives peer =>
    if (s.workers peer).thread = .looping then some (s.setThread peer .pushing) else none
  | .workerPushes peer =>
    if (s.workers peer).thread = .pushing ∧ ¬ s.QueueFull then
      some { s.setThread peer .looping with
        queued := if s.queueStopped then s.queued else s.queued + 1 }
    else none
  | .workerExits peer =>
    if (s.workers peer).thread = .looping ∧ (s.workers peer).running = false then
      some (s.setThread peer .exited)
    else none

variable {s} {s' : BrokerThreads ω} {e : Event ω}

theorem setThread_thread (peer x : ω) (thread : WorkerThread) :
    ((s.setThread peer thread).workers x).thread =
      if x = peer then thread else (s.workers x).thread := by
  simp only [setThread, Function.update_apply]
  split_ifs <;> rfl

theorem stopWorker_thread (peer x : ω) :
    ((s.stopWorker peer).workers x).thread = (s.workers x).thread := by
  simp only [stopWorker, Function.update_apply]
  split_ifs with h <;> simp [h]

/-- `step`, read as one guard and one next state for each way an event can go. -/
inductive Fires (s : BrokerThreads ω) : Event ω → BrokerThreads ω → Prop
  | callStop : s.stop = .notCalled →
      Fires s .callStop { s with running := false, stop := .stopDiscovery }
  | stopDiscovery : s.stop = .stopDiscovery →
      Fires s .stopDiscovery { s with discoveryRunning := false, stop := .joinDiscovery }
  | discoveryJoined : s.stop = .joinDiscovery → s.discovery = .exited →
      Fires s .discoveryJoined { s with stop := .stopQueue }
  | stopQueue : s.stop = .stopQueue →
      Fires s .stopQueue { s with queueStopped := true, stop := .joinBroker }
  | brokerJoined : s.stop = .joinBroker → Fires s .brokerJoined { s with stop := .swapPeers }
  | swapPeers (rest : List ω) : s.stop = .swapPeers →
      Fires s .swapPeers { s with peers := ∅, stop := .stopPeers rest }
  | stopPeer (peer : ω) (rest : List ω) : s.stop = .stopPeers (peer :: rest) →
      Fires s .stopPeer { s.stopWorker peer with stop := .joinPeer peer rest }
  | peerJoined (peer : ω) (rest : List ω) : s.stop = .joinPeer peer rest →
      Fires s .peerJoined { s with stop := .stopPeers rest }
  | returns : s.stop = .stopPeers [] → Fires s .returns { s with stop := .returned }
  | brokerPops : s.brokerExited = false → Fires s .brokerPops { s with queued := s.queued - 1 }
  | brokerExits : Fires s .brokerExits { s with brokerExited := true }
  | keyTaken (e : Event ω) : Fires s e s
  | addPeer (e : Event ω) (key : String) (peer : ω) : (s.workers peer).thread = .notStarted →
      Fires s e { s.setThread peer .looping with peers := s.peers.insert key peer }
  | expireStale (lost : List String) : s.discovery = .looping →
      Fires s (.expireStale lost) { s with discovery := .dropping lost }
  | notPeer (key : String) (lost : List String) : s.discovery = .dropping (key :: lost) →
      Fires s .removePeer { s with discovery := .dropping lost }
  | removePeer (key : String) (lost : List String) (peer : ω) :
      s.discovery = .dropping (key :: lost) → s.peers.lookup key = some peer →
      Fires s .removePeer { s.stopWorker peer with
        peers := s.peers.erase key, discovery := .joining peer lost }
  | removedPeer (peer : ω) (lost : List String) : s.discovery = .joining peer lost →
      ¬ (s.workers peer).Alive → Fires s .removedPeer { s with discovery := .dropping lost }
  | expired : s.discovery = .dropping [] → Fires s .expired { s with discovery := .looping }
  | discoveryExits : s.discovery = .looping →
      Fires s .discoveryExits { s with discovery := .exited }
  | workerReceives (peer : ω) : (s.workers peer).thread = .looping →
      Fires s (.workerReceives peer) (s.setThread peer .pushing)
  | workerPushes (peer : ω) : (s.workers peer).thread = .pushing → ¬ s.QueueFull →
      Fires s (.workerPushes peer) { s.setThread peer .looping with
        queued := if s.queueStopped then s.queued else s.queued + 1 }
  | workerExits (peer : ω) : (s.workers peer).thread = .looping →
      Fires s (.workerExits peer) (s.setThread peer .exited)

theorem addPeer_fires {key : String} {peer : ω} (h : s.addPeer key peer = some s') :
    s.Fires e s' := by
  unfold addPeer at h
  split_ifs at h with hn
  · obtain rfl := Option.some.inj h
    exact .keyTaken e
  · obtain rfl := Option.some.inj h
    exact .addPeer e key peer (not_not.mp hn)

theorem step_fires (he : s.step e = some s') : s.Fires e s' := by
  cases e with
  | stopPeer =>
    simp only [step] at he
    split at he
    · rename_i peer rest hs
      obtain rfl := Option.some.inj he
      exact .stopPeer peer rest hs
    · cases he
  | peerJoined =>
    simp only [step] at he
    split at he
    · rename_i peer rest hs
      split_ifs at he
      obtain rfl := Option.some.inj he
      exact .peerJoined peer rest hs
    · cases he
  | removePeer =>
    simp only [step] at he
    split at he
    · rename_i key lost hd
      split at he
      · obtain rfl := Option.some.inj he
        exact .notPeer key lost hd
      · rename_i peer hl
        obtain rfl := Option.some.inj he
        exact .removePeer key lost peer hd hl
    · cases he
  | removedPeer =>
    simp only [step] at he
    split at he
    · rename_i peer lost hd
      split_ifs at he with ha
      obtain rfl := Option.some.inj he
      exact .removedPeer peer lost hd ha
    · cases he
  | dial key peer =>
    simp only [step, Option.ite_none_right_eq_some] at he
    exact addPeer_fires he.2
  | connectToPeer key peer => exact addPeer_fires he
  | brokerPops =>
    simp only [step, Option.ite_none_left_eq_some, not_or, Bool.not_eq_true,
      Option.some.injEq] at he
    obtain ⟨⟨hb, -⟩, rfl⟩ := he
    exact .brokerPops hb
  | brokerExits =>
    simp only [step, Option.ite_none_left_eq_some, Option.some.injEq] at he
    obtain ⟨-, rfl⟩ := he
    exact .brokerExits
  | _ =>
    simp only [step, Option.ite_none_right_eq_some, Option.some.injEq] at he
    obtain ⟨hc, rfl⟩ := he
    first
      | exact .callStop hc
      | exact .stopDiscovery hc
      | exact .discoveryJoined hc.1 hc.2
      | exact .stopQueue hc
      | exact .brokerJoined hc.1
      | exact .swapPeers _ hc
      | exact .returns hc
      | exact .expireStale _ hc
      | exact .expired hc
      | exact .discoveryExits hc.1
      | exact .workerReceives _ hc
      | exact .workerPushes _ hc.1 hc.2
      | exact .workerExits _ hc.1

theorem Ordered.step (h : s.Ordered) (he : s.step e = some s') : s'.Ordered := by
  -- a caller past the early stages only moves on, with discovery and the queue as they are
  have late : ∀ {s' : BrokerThreads ω}, ¬ s.stop.Early → s.stop ≠ .stopQueue →
      s'.discovery = s.discovery → s'.queueStopped = s.queueStopped → s'.Ordered :=
    fun hl hne hd hq => ⟨fun _ => hd ▸ h.discovery hl, fun _ _ => hq ▸ h.queue hl hne⟩
  cases step_fires he with
  | callStop => exact ⟨fun hx => absurd trivial hx, fun hx => absurd trivial hx⟩
  | stopDiscovery => exact ⟨fun hx => absurd trivial hx, fun hx => absurd trivial hx⟩
  | discoveryJoined _ hd => exact ⟨fun _ => hd, fun _ hne => absurd rfl hne⟩
  | stopQueue hs => exact ⟨fun _ => h.discovery (by simp [hs, Stop.Early]), fun _ _ => rfl⟩
  | brokerJoined hs => exact late (by simp [hs, Stop.Early]) (by simp [hs]) rfl rfl
  | swapPeers rest hs => exact late (by simp [hs, Stop.Early]) (by simp [hs]) rfl rfl
  | stopPeer peer rest hs => exact late (by simp [hs, Stop.Early]) (by simp [hs]) rfl rfl
  | peerJoined peer rest hs => exact late (by simp [hs, Stop.Early]) (by simp [hs]) rfl rfl
  | returns hs => exact late (by simp [hs, Stop.Early]) (by simp [hs]) rfl rfl
  | keyTaken => exact h
  | expireStale lost hd => exact h.of_frame rfl rfl fun hx => by simp [hd] at hx
  | notPeer key lost hd => exact h.of_frame rfl rfl fun hx => by simp [hd] at hx
  | removePeer key lost peer hd => exact h.of_frame rfl rfl fun hx => by simp [hd] at hx
  | removedPeer peer lost hd => exact h.of_frame rfl rfl fun hx => by simp [hd] at hx
  | expired hd => exact h.of_frame rfl rfl fun hx => by simp [hd] at hx
  | discoveryExits => exact h.of_frame rfl rfl fun _ => rfl
  | brokerPops => exact h.of_frame rfl rfl id
  | brokerExits => exact h.of_frame rfl rfl id
  | addPeer => exact h.of_frame rfl rfl id
  | workerReceives => exact h.of_frame rfl rfl id
  | workerPushes => exact h.of_frame rfl rfl id
  | workerExits => exact h.of_frame rfl rfl id

theorem Averts.not_wedged (ha : s.Averts e) (h : ¬ s.Wedged) (he : s.step e = some s') :
    ¬ s'.Wedged := by
  intro hw
  -- a thread other than the one that moves keeps its place
  have moved : ∀ {peer x : ω} {thread : WorkerThread}, thread ≠ .pushing →
      ((s.setThread peer thread).workers x).thread = .pushing →
        (s.workers x).thread = .pushing ∧ x ≠ peer := by
    intro peer x thread ht hx
    rw [setThread_thread] at hx
    by_cases hxp : x = peer
    · rw [if_pos hxp] at hx
      exact absurd hx ht
    · rw [if_neg hxp] at hx
      exact ⟨hx, hxp⟩
  cases step_fires he with
  | brokerExits =>
    obtain ⟨-, hf, peer, lost, hj, hp⟩ := hw
    exact ha ⟨hf, peer, lost, hj, hp⟩
  | removePeer key lost peer hd hl =>
    obtain ⟨hb, hf, peer', lost', hj, hp⟩ := hw
    obtain ⟨rfl, rfl⟩ : peer = peer' ∧ lost = lost' := by simpa using hj
    have hp' : (s.workers peer).thread = .pushing := (stopWorker_thread peer peer).symm.trans hp
    exact ha ⟨hb, hf, key, lost, peer, hd, hl, hp'⟩
  | workerReceives peer ht =>
    obtain ⟨hb, hf, peer', lost, hj, hp⟩ := hw
    rw [setThread_thread] at hp
    by_cases hpp : peer' = peer
    · exact ha ⟨hb, hf, lost, hpp ▸ hj⟩
    · rw [if_neg hpp] at hp
      exact h ⟨hb, hf, peer', lost, hj, hp⟩
  | workerPushes peer ht hnf =>
    obtain ⟨hb, ⟨hm, hq⟩, peer', lost, hj, hp⟩ := hw
    have hq' : s.queueStopped = false := hq
    obtain ⟨hp', hne⟩ := moved (by decide) hp
    simp only [hq', Bool.false_eq_true, if_false] at hm
    have hlt : s.queued < maxSize := by
      by_contra hge
      exact hnf ⟨not_lt.mp hge, hq'⟩
    exact ha ⟨hb, hq', by omega, peer', lost, hj, hne, hp'⟩
  | keyTaken => exact h hw
  | addPeer _ key peer =>
    exact h (hw.of_frame rfl id (fun _ _ => id) fun _ hx => (moved (by decide) hx).1)
  | workerExits peer =>
    exact h (hw.of_frame rfl id (fun _ _ => id) fun _ hx => (moved (by decide) hx).1)
  | stopPeer peer =>
    refine h (hw.of_frame rfl id (fun _ _ => id) fun x hx => ?_)
    rwa [← stopWorker_thread peer x]
  | stopQueue => exact absurd hw.2.1.2 (by simp)
  | brokerPops hb => exact absurd (hb.symm.trans hw.1) Bool.false_ne_true
  | expireStale => exact h (hw.of_frame rfl id (by simp) fun _ => id)
  | notPeer => exact h (hw.of_frame rfl id (by simp) fun _ => id)
  | removedPeer => exact h (hw.of_frame rfl id (by simp) fun _ => id)
  | expired => exact h (hw.of_frame rfl id (by simp) fun _ => id)
  | discoveryExits => exact h (hw.of_frame rfl id (by simp) fun _ => id)
  | callStop => exact h (hw.of_frame rfl id (fun _ _ => id) fun _ => id)
  | stopDiscovery => exact h (hw.of_frame rfl id (fun _ _ => id) fun _ => id)
  | discoveryJoined => exact h (hw.of_frame rfl id (fun _ _ => id) fun _ => id)
  | brokerJoined => exact h (hw.of_frame rfl id (fun _ _ => id) fun _ => id)
  | swapPeers => exact h (hw.of_frame rfl id (fun _ _ => id) fun _ => id)
  | peerJoined => exact h (hw.of_frame rfl id (fun _ _ => id) fun _ => id)
  | returns => exact h (hw.of_frame rfl id (fun _ _ => id) fun _ => id)

/-- If no step closes the circle, no state on the way has every thread blocked. -/
theorem stop_never_deadlocks (h : Reachable Initial (guarded Averts (ofFun step)) s) :
    ¬ s.Deadlocked := by
  have hinv : s.Ordered ∧ ¬ s.Wedged := by
    refine h.invariant (P := fun s => s.Ordered ∧ ¬ s.Wedged) ?_ ?_
    · intro s₀ h₀
      refine ⟨h₀.ordered, ?_⟩
      rintro ⟨hb, -⟩
      obtain ⟨discovery, -, rfl⟩ := h₀
      exact absurd hb Bool.false_ne_true
    · rintro u e u' ⟨ho, hn⟩ ⟨ha, hs⟩
      exact ⟨ho.step hs, Averts.not_wedged ha hn hs⟩
  exact fun hd => hinv.2 (hd.wedged hinv.1)

theorem stop_never_deadlocks_joinBroker :
    ∃ s : BrokerThreads Unit, s.CallerBlocked ∧ ¬ s.Deadlocked := by
  let events : List (Event Unit) :=
    [.connectToPeer "peer" (), .callStop, .stopDiscovery, .discoveryJoined, .stopQueue]
  have hG : ∀ e ∈ events, ∀ s : BrokerThreads Unit, s.Averts e := by
    intro e he s
    simp only [events, List.mem_cons, List.not_mem_nil, or_false] at he
    rcases he with rfl | rfl | rfl | rfl | rfl <;> trivial
  have hsome : (exec step { discovery := .exited } events).isSome = true := by decide
  obtain ⟨s, hs⟩ := Option.isSome_iff_exists.mp hsome
  have hr := exec_guarded (fun x hx => hG x.2 (List.of_mem_zip hx).2 x.1) hs
  have hb : s.CallerBlocked := by
    obtain rfl := Option.some.inj hs
    exact rfl
  exact ⟨s, hb, stop_never_deadlocks ⟨_, _, ⟨.exited, Or.inr rfl, rfl⟩, hr⟩⟩

theorem Wedged.step (h : s.Wedged) (ho : s.Ordered) (he : s.step e = some s') : s'.Wedged := by
  obtain ⟨hb, hf, peer, lost, hj, hp⟩ := h
  have hearly : s.stop.Early := by
    by_contra hl
    have hd := ho.discovery hl
    rw [hj] at hd
    cases hd
  -- a worker that is not pushing is another worker
  have other : ∀ {x : ω} {thread : WorkerThread}, (s.workers x).thread ≠ .pushing →
      ((s.setThread x thread).workers peer).thread = .pushing := by
    intro x thread hx
    rw [setThread_thread, if_neg, hp]
    rintro rfl
    exact hx hp
  cases step_fires he with
  | callStop => exact ⟨hb, hf, peer, lost, hj, hp⟩
  | stopDiscovery => exact ⟨hb, hf, peer, lost, hj, hp⟩
  | brokerExits => exact ⟨rfl, hf, peer, lost, hj, hp⟩
  | keyTaken => exact ⟨hb, hf, peer, lost, hj, hp⟩
  | addPeer _ key x hx => exact ⟨hb, hf, peer, lost, hj, other (by simp [hx])⟩
  | workerReceives x hx => exact ⟨hb, hf, peer, lost, hj, other (by simp [hx])⟩
  | workerExits x hx => exact ⟨hb, hf, peer, lost, hj, other (by simp [hx])⟩
  | workerPushes x hx hnf => exact absurd hf hnf
  | removedPeer x lost' hd ha =>
    obtain ⟨rfl, -⟩ : peer = x ∧ lost = lost' := by simpa [hj] using hd
    exact absurd (Or.inr hp) ha
  | brokerPops hn => exact absurd (hn.symm.trans hb) Bool.false_ne_true
  | discoveryJoined _ hd => simp [hj] at hd
  | expireStale _ hd => simp [hj] at hd
  | notPeer _ _ hd => simp [hj] at hd
  | removePeer _ _ _ hd => simp [hj] at hd
  | expired hd => simp [hj] at hd
  | discoveryExits hd => simp [hj] at hd
  | stopQueue hs => simp [hs, Stop.Early] at hearly
  | brokerJoined hs => simp [hs, Stop.Early] at hearly
  | swapPeers _ hs => simp [hs, Stop.Early] at hearly
  | stopPeer _ _ hs => simp [hs, Stop.Early] at hearly
  | peerJoined _ _ hs => simp [hs, Stop.Early] at hearly
  | returns hs => simp [hs, Stop.Early] at hearly

/-- Once the circle is closed, `stop` never returns, whatever the threads do. -/
theorem wedged_never_returns (hr : Reachable Initial (ofFun step) s) (h : s.Wedged)
    {tr : List (Event ω × BrokerThreads ω)} (hrun : Run (ofFun step) s tr s') :
    s'.Wedged ∧ s'.stop ≠ .returned := by
  have ho : s.Ordered :=
    hr.invariant (fun _ h₀ => h₀.ordered) fun _ _ _ hu hs => hu.step hs
  have hinv : s'.Ordered ∧ s'.Wedged :=
    hrun.invariant (P := fun s => s.Ordered ∧ s.Wedged) ⟨ho, h⟩
      fun _ _ _ hu hs => ⟨hu.1.step hs, hu.2.step hu.1 hs⟩
  refine ⟨hinv.2, fun hx => ?_⟩
  obtain ⟨-, -, peer, lost, hj, -⟩ := hinv.2
  have hd := hinv.1.discovery (by simp [hx, Stop.Early])
  rw [hj] at hd
  cases hd

def filled (n : ℕ) : BrokerThreads Unit :=
  { discovery := .looping, peers := (∅ : Table String Unit).insert "peer" (), queued := n
    workers := fun _ => { thread := .looping } }

theorem filled_push {n : ℕ} (hn : n < maxSize) :
    exec step (filled n) [.workerReceives (), .workerPushes ()] = some (filled (n + 1)) := by
  have hlt : ¬ maxSize ≤ n := not_le.mpr hn
  simp only [exec, step, filled, setThread, QueueFull, hlt, List.foldlM_cons, List.foldlM_nil,
    Function.update_self, Function.update_idem, if_true, false_and, not_false_eq_true, and_self,
    Bool.false_eq_true, if_false, Option.bind_eq_bind, Option.bind_some, Option.pure_def]
  congr 2

theorem filled_reachable {n : ℕ} (hn : n ≤ maxSize) :
    Reachable Initial (ofFun step) (filled n) := by
  induction n with
  | zero =>
    have h₀ : Reachable Initial (ofFun step) ({ discovery := .looping } : BrokerThreads Unit) :=
      ⟨_, [], ⟨.looping, Or.inl rfl, rfl⟩, .nil _⟩
    have hd : exec step { discovery := .looping } [.dial "peer" ()] = some (filled 0) := by
      change some _ = some _
      congr 2
    exact h₀.exec hd
  | succ n ih => exact (ih (by omega)).exec (filled_push (by omega))

/-- The broker thread ends with the queue full, then discovery drops the peer whose worker is
waiting for room, and `stop` waits for discovery. -/
theorem stop_deadlocks :
    ∃ s : BrokerThreads Unit, Reachable Initial (ofFun step) s ∧ s.Deadlocked := by
  let events : List (Event Unit) :=
    [.workerReceives (), .callStop, .brokerExits, .expireStale ["peer"], .removePeer,
      .stopDiscovery]
  have hsome : (exec step (filled maxSize) events).isSome = true := by decide
  obtain ⟨s, hs⟩ := Option.isSome_iff_exists.mp hsome
  refine ⟨s, (filled_reachable le_rfl).exec hs, ?_⟩
  obtain rfl := Option.some.inj hs
  refine ⟨?_, rfl, Or.inr (Or.inr rfl), fun peer _ => ⟨rfl, le_rfl, rfl⟩⟩
  change DiscoveryThread.joining () [] ≠ .exited
  simp

end BrokerThreads

end ZmqPubSub
