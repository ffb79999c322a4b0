import Mathlib.Data.List.DropRight
import Mathlib.Data.UInt
import ZmqPubSub.ClientLifetimes
import ZmqPubSub.Framing
import ZmqPubSub.Periodic
import ZmqPubSub.StatsBroadcast

/-!
`ZmqBroker::run` pass by pass: one message from the ROUTER socket, everything that waits in the peer
inbound queue, then the two timers. Other threads and the network get in between. The steady clock
does not go back.
-/

namespace ZmqPubSub

open Containers TransitionSystem

/-- What the broker thread has done, with its calls. -/
inductive Record (ω : Type*)
  | client (identity : String) (env : Envelope) (effects : List (Effect ω))
  | peer (env : Envelope) (effects : List (Effect ω))
  | sweep (now : Time)
  | stats (now : Time) (stats : SystemStats) (effects : List (Effect ω))

namespace Record

variable {ω : Type*}

def clientMessage : Record ω → Option (String × Envelope)
  | client identity env _ => some (identity, env)
  | _ => none

def peerMessage : Record ω → Option Envelope
  | peer env _ => some env
  | _ => none

def statsTime : Record ω → Option Time
  | stats now _ _ => some now
  | _ => none

def isStats : Record ω → Bool
  | stats _ _ _ => true
  | _ => false

end Record

inductive LoopPhase
  /-- At `while (m_running)`. -/
  | head
  | poll
  | drain
  | timers
  | stopped
deriving DecidableEq, Repr

structure BrokerLoop (ω : Type*) where
  broker : Broker ω
  running : Bool := true
  phase : LoopPhase := .head
  router : Inbox Bytes := ⟨[], []⟩
  peerInbound : List Envelope := []
  lastCleanup : Time
  /-- The last reading of the clock. -/
  clock : Time
  /-- Oldest first. No step reads it. -/
  log : List (Record ω) := []

namespace BrokerLoop

variable {ω : Type*} (pb : Protobuf) (s : BrokerLoop ω)

def cleanupInterval : Time := seconds 2

def statsInterval : Time := seconds 1

def maxSize : ℕ := 5000

/-- `message_t::to_string` of a routing id that is UTF-8 text. -/
def text (data : Bytes) : String := (Proto3.ofUtf8 data).getD ""

def pollRouter (fresh : Uuid) (now : Time) : BrokerLoop ω :=
  match s.router.recvFrame with
  | none => { s with phase := .drain }
  | some (identity, i) =>
    if i.rcvmore then
      let r := Framing.recv pb i
      match r.1 with
      | none => { s with router := r.2, phase := .drain }
      | some env =>
        let p := s.broker.processFromRouter pb fresh now env (text identity)
        { s with broker := p.1, router := r.2, phase := .drain
                 log := s.log ++ [.client (text identity) env p.2] }
    -- a single part: `continue`
    else { s with router := i, phase := .head }

/-- One `try_pop` of the loop over the peer inbound queue. -/
def drainPeers (fresh : Uuid) (now : Time) : BrokerLoop ω :=
  match s.peerInbound with
  | [] => { s with phase := .timers }
  | env :: rest =>
    let p := s.broker.processFromPeer pb fresh now env
    { s with broker := p.1, peerInbound := rest, log := s.log ++ [.peer env p.2] }

def cleanup (now : Time) : BrokerLoop ω :=
  if now - s.lastCleanup > cleanupInterval then
    { s with broker := s.broker.sweep now, lastCleanup := now, log := s.log ++ [.sweep now] }
  else s

/-- `broadcastStats` reads the clock again, for the uptime. -/
def publish (now uptimeNow : Time) : BrokerLoop ω :=
  if now - s.broker.lastStatsTime > statsInterval then
    { s with
      broker := { s.broker with lastStatsTime := now, msgsInterval := 0, bytesInterval := 0 }
      log := s.log ++
        [.stats now (s.broker.systemStats uptimeNow) (s.broker.broadcastStats pb uptimeNow)] }
  else s

/-- The broker thread goes on, from where it is to the next place. -/
def turn (fresh : Uuid) (now uptimeNow : Time) : Option (BrokerLoop ω) :=
  match s.phase with
  | .head => some { s with phase := if s.running then .poll else .stopped }
  | .poll => some (s.pollRouter pb fresh now)
  | .drain => some (s.drainPeers pb fresh now)
  | .timers => some { (s.cleanup now).publish pb now uptimeNow with phase := .head }
  | .stopped => none

inductive Event (ω : Type*)
  | turn (fresh : Uuid) (now uptimeNow : Time)
  /-- A message arrives at the ROUTER socket. Its routing id is text, as the workers set it; the ids
  that libzmq makes up for other peers are not. -/
  | arrive (identity : String) (frames : List Bytes)
  /-- A peer worker pushes a message. -/
  | pushPeer (env : Envelope)
  | addPeer (key : String) (peer : ω)
  | removePeer (key : String)
  | stop

def step : Event ω → Option (BrokerLoop ω)
  | .turn fresh now uptimeNow =>
    if s.clock ≤ now ∧ now ≤ uptimeNow then
      turn pb { s with clock := uptimeNow } fresh now uptimeNow
    else none
  | .arrive identity frames =>
    let group := ⟨Proto3.utf8 identity, frames⟩
    some { s with router := { s.router with groups := s.router.groups ++ [group] } }
  | .pushPeer env =>
    if s.peerInbound.length < maxSize then some { s with peerInbound := s.peerInbound ++ [env] }
    else none
  | .addPeer key peer => some { s with broker := s.broker.addPeer key peer }
  | .removePeer key => some { s with broker := s.broker.removePeer key }
  | .stop => some { s with running := false }

/-- `start` has read the clock, and the thread is about to enter the loop. -/
def Initial : Prop :=
  ∃ id t t', t ≤ t' ∧ s = { broker := { brokerId := id, startTime := t, lastStatsTime := t }
                            lastCleanup := t', clock := t' }

/-- The message of a ROUTER group, if it is one that `run` processes. -/
def message (g : Multipart Bytes) : Option (String × Envelope) :=
  (Wire.recv pb g.more).map fun env => (text g.first, env)

def Event.arrival : Event ω → Option (Multipart Bytes)
  | .arrive identity frames => some ⟨Proto3.utf8 identity, frames⟩
  | _ => none

def Event.pushed : Event ω → Option Envelope
  | .pushPeer env => some env
  | _ => none

/-- What a step can do, on a socket that stands between two messages. -/
inductive Acts (pb : Protobuf) (s : BrokerLoop ω) : Event ω → BrokerLoop ω → Prop
  | pass {fresh : Uuid} {now uptimeNow : Time} (phase : LoopPhase) :
      Acts pb s (.turn fresh now uptimeNow) { s with phase := phase, clock := uptimeNow }
  | discard {fresh : Uuid} {now uptimeNow : Time} {g : Multipart Bytes}
      {rest : List (Multipart Bytes)} (phase : LoopPhase) : s.router.groups = g :: rest →
      message pb g = none → Acts pb s (.turn fresh now uptimeNow)
        { s with router := ⟨[], rest⟩, phase := phase, clock := uptimeNow }
  | client {fresh : Uuid} {now uptimeNow : Time} {g : Multipart Bytes}
      {rest : List (Multipart Bytes)} {identity : String} {env : Envelope} :
      s.router.groups = g :: rest → message pb g = some (identity, env) →
      Acts pb s (.turn fresh now uptimeNow)
        { s with broker := (s.broker.processFromRouter pb fresh now env identity).1
                 router := ⟨[], rest⟩, phase := .drain, clock := uptimeNow
                 log := s.log ++
                   [.client identity env (s.broker.processFromRouter pb fresh now env identity).2] }
  | peer {fresh : Uuid} {now uptimeNow : Time} {env : Envelope} {rest : List Envelope} :
      s.peerInbound = env :: rest → Acts pb s (.turn fresh now uptimeNow)
        { s with broker := (s.broker.processFromPeer pb fresh now env).1
                 peerInbound := rest, clock := uptimeNow
                 log := s.log ++ [.peer env (s.broker.processFromPeer pb fresh now env).2] }
  | timers {fresh : Uuid} {now uptimeNow : Time} : s.phase = .timers →
      Acts pb s (.turn fresh now uptimeNow)
        { (cleanup { s with clock := uptimeNow } now).publish pb now uptimeNow with phase := .head }
  | arrive (identity : String) (frames : List Bytes) : Acts pb s (.arrive identity frames)
      { s with router := { s.router with
                           groups := s.router.groups ++ [⟨Proto3.utf8 identity, frames⟩] } }
  | pushPeer (env : Envelope) :
      Acts pb s (.pushPeer env) { s with peerInbound := s.peerInbound ++ [env] }
  | addPeer (key : String) (peer : ω) :
      Acts pb s (.addPeer key peer) { s with broker := s.broker.addPeer key peer }
  | removePeer (key : String) :
      Acts pb s (.removePeer key) { s with broker := s.broker.removePeer key }
  | stop : Acts pb s .stop { s with running := false }

variable {pb s} {s' : BrokerLoop ω} {e : Event ω}

theorem pollRouter_acts (hm : s.router.more = []) (fresh : Uuid) (now uptimeNow : Time) :
    Acts pb s (.turn fresh now uptimeNow)
      (pollRouter pb { s with clock := uptimeNow } fresh now) := by
  obtain ⟨broker, running, phase, ⟨more, groups⟩, peerInbound, lastCleanup, clock, log⟩ := s
  obtain rfl : more = [] := hm
  cases groups with
  | nil => exact .pass .drain
  | cons g rest =>
    obtain ⟨identity, frames⟩ := g
    cases frames with
    | nil => exact .discard .head rfl rfl
    | cons frame frames =>
      have hrecv : Framing.recv pb ⟨frame :: frames, rest⟩ =
          (Wire.recv pb (frame :: frames), ⟨[], rest⟩) := Framing.recv_cons pb frame frames rest
      simp only [pollRouter, Inbox.recvFrame, Inbox.rcvmore, List.isEmpty_cons, Bool.not_false,
        if_true, hrecv]
      cases hw : Wire.recv pb (frame :: frames) with
      | none => exact .discard .drain rfl (by simp [message, hw])
      | some env => exact .client rfl (by simp [message, hw])

theorem drainPeers_acts (fresh : Uuid) (now uptimeNow : Time) :
    Acts pb s (.turn fresh now uptimeNow)
      (drainPeers pb { s with clock := uptimeNow } fresh now) := by
  unfold drainPeers
  split
  · exact .pass .timers
  · next hp => exact .peer hp

theorem step_turn {fresh : Uuid} {now uptimeNow : Time}
    (h : s.step pb (.turn fresh now uptimeNow) = some s') :
    (s.clock ≤ now ∧ now ≤ uptimeNow) ∧
      turn pb { s with clock := uptimeNow } fresh now uptimeNow = some s' := by
  rw [step] at h
  by_cases hc : s.clock ≤ now ∧ now ≤ uptimeNow
  · exact ⟨hc, by rwa [if_pos hc] at h⟩
  · rw [if_neg hc] at h
    cases h

theorem turn_timers (hp : s.phase = .timers) {fresh : Uuid} {now uptimeNow : Time} :
    s.turn pb fresh now uptimeNow =
      some { (s.cleanup now).publish pb now uptimeNow with phase := .head } := by
  unfold turn
  rw [hp]

theorem step_acts (hm : s.router.more = []) (h : s.step pb e = some s') : Acts pb s e s' := by
  cases e with
  | turn fresh now uptimeNow =>
    obtain ⟨-, h⟩ := step_turn h
    unfold turn at h
    split at h
    · obtain rfl := Option.some.inj h
      exact .pass _
    · obtain rfl := Option.some.inj h
      exact pollRouter_acts hm fresh now uptimeNow
    · obtain rfl := Option.some.inj h
      exact drainPeers_acts fresh now uptimeNow
    · next hp =>
      obtain rfl := Option.some.inj h
      exact .timers hp
    · cases h
  | arrive identity frames =>
    cases h
    exact .arrive identity frames
  | pushPeer env =>
    simp only [step] at h
    split_ifs at h
    cases h
    exact .pushPeer env
  | addPeer key peer =>
    cases h
    exact .addPeer key peer
  | removePeer key =>
    cases h
    exact .removePeer key
  | stop =>
    cases h
    exact .stop

/-- What the two timers leave alone. -/
structure Untouched (s s' : BrokerLoop ω) : Prop where
  router : s'.router = s.router
  peerInbound : s'.peerInbound = s.peerInbound
  clock : s'.clock = s.clock
  clients : s'.log.filterMap Record.clientMessage = s.log.filterMap Record.clientMessage
  peers : s'.log.filterMap Record.peerMessage = s.log.filterMap Record.peerMessage

theorem cleanup_untouched (s : BrokerLoop ω) (now : Time) : Untouched s (s.cleanup now) := by
  unfold cleanup
  split_ifs
  · exact ⟨rfl, rfl, rfl, filterMap_concat_none rfl _, filterMap_concat_none rfl _⟩
  · exact ⟨rfl, rfl, rfl, rfl, rfl⟩

theorem publish_untouched (pb : Protobuf) (s : BrokerLoop ω) (now uptimeNow : Time) :
    Untouched s (s.publish pb now uptimeNow) := by
  unfold publish
  split_ifs
  · exact ⟨rfl, rfl, rfl, filterMap_concat_none rfl _, filterMap_concat_none rfl _⟩
  · exact ⟨rfl, rfl, rfl, rfl, rfl⟩

theorem Untouched.trans {s'' : BrokerLoop ω} (h : Untouched s s') (h' : Untouched s' s'') :
    Untouched s s'' where
  router := h'.router.trans h.router
  peerInbound := h'.peerInbound.trans h.peerInbound
  clock := h'.clock.trans h.clock
  clients := h'.clients.trans h.clients
  peers := h'.peers.trans h.peers

theorem cleanup_reachable (h : Broker.Reachable pb s.broker) (now : Time) :
    Broker.Reachable pb (s.cleanup now).broker := by
  unfold cleanup
  split_ifs
  · exact h.tail (show Broker.Steps pb _ (.sweep now) _ from rfl)
  · exact h

theorem publish_reachable (h : Broker.Reachable pb s.broker) (now uptimeNow : Time) :
    Broker.Reachable pb (s.publish pb now uptimeNow).broker := by
  unfold publish
  split_ifs
  · exact h.tail (show Broker.Steps pb _ (.broadcastStats now) _ from rfl)
  · exact h

/-- After some events: the messages that were read, and the states of the broker they led to. -/
structure Takes (pb : Protobuf) (events : List (Event ω)) (s : BrokerLoop ω) : Prop where
  aligned : s.router.more = []
  clients : ∃ read, events.filterMap Event.arrival = read ++ s.router.groups ∧
    s.log.filterMap Record.clientMessage = read.filterMap (message pb)
  peers : events.filterMap Event.pushed =
    s.log.filterMap Record.peerMessage ++ s.peerInbound
  broker : Broker.Reachable pb s.broker

variable {events : List (Event ω)}

theorem takes_initial (h : s.Initial) : Takes pb [] s := by
  obtain ⟨id, t, t', -, rfl⟩ := h
  exact ⟨rfl, ⟨[], rfl, rfl⟩, rfl, ⟨_, [], ⟨id, t, rfl⟩, .nil _⟩⟩

theorem Takes.silent (ha : e.arrival = none) (hpu : e.pushed = none) (hal : s'.router.more = [])
    (hc : ∃ read, events.filterMap Event.arrival = read ++ s'.router.groups ∧
      s'.log.filterMap Record.clientMessage = read.filterMap (message pb))
    (hp : events.filterMap Event.pushed = s'.log.filterMap Record.peerMessage ++ s'.peerInbound)
    (hb : Broker.Reachable pb s'.broker) : Takes pb (events ++ [e]) s' := by
  refine ⟨hal, ?_, ?_, hb⟩
  · rwa [filterMap_concat_none ha]
  · rwa [filterMap_concat_none hpu]

theorem Takes.step (h : Takes pb events s) (hs : s.step pb e = some s') :
    Takes pb (events ++ [e]) s' := by
  obtain ⟨hal, ⟨read, hread, hlog⟩, hpeers, hb⟩ := h
  cases step_acts hal hs with
  | pass phase => exact .silent rfl rfl hal ⟨read, hread, hlog⟩ hpeers hb
  | @discard _ _ _ g rest phase hg hm =>
    refine .silent rfl rfl rfl ⟨read ++ [g], ?_, ?_⟩ hpeers hb
    · rw [hread, hg, List.append_assoc, List.singleton_append]
    · rw [hlog, filterMap_concat_none hm]
  | @client fresh now _ g rest identity env hg hm =>
    refine .silent rfl rfl rfl ⟨read ++ [g], ?_, ?_⟩ ?_ ?_
    · rw [hread, hg, List.append_assoc, List.singleton_append]
    · rw [List.filterMap_append, hlog, List.filterMap_append, List.filterMap_cons_some hm]
      rfl
    · rw [hpeers, filterMap_concat_none rfl]
    · exact hb.tail (show Broker.Steps pb _ (.fromRouter fresh now env identity) _ from rfl)
  | @peer fresh now _ env rest hp =>
    refine .silent rfl rfl hal ⟨read, hread, ?_⟩ ?_ ?_
    · rw [filterMap_concat_none rfl, hlog]
    · rw [hpeers, hp, List.filterMap_append, List.append_assoc]
      rfl
    · exact hb.tail (show Broker.Steps pb _ (.fromPeer fresh now env) _ from rfl)
  | @timers _ now uptimeNow hp =>
    obtain ⟨hr, hq, -, hcl, hpe⟩ := (cleanup_untouched { s with clock := uptimeNow } now).trans
      (publish_untouched pb _ now uptimeNow)
    refine .silent rfl rfl ?_ ⟨read, ?_, ?_⟩ ?_ ?_
    · exact (congrArg Inbox.more hr).trans hal
    · rw [hread, ← congrArg Inbox.groups hr]
    · exact hcl.trans hlog
    · rw [hpeers, hq, hpe]
    · exact publish_reachable (cleanup_reachable (s := { s with clock := uptimeNow }) hb now) now
        uptimeNow
  | arrive identity frames =>
    refine ⟨hal, ⟨read, ?_, hlog⟩, ?_, hb⟩
    · rw [List.filterMap_append, hread, List.append_assoc]
      rfl
    · rwa [filterMap_concat_none rfl]
  | pushPeer env =>
    refine ⟨hal, ⟨read, ?_, hlog⟩, ?_, hb⟩
    · rwa [filterMap_concat_none rfl]
    · rw [List.filterMap_append, hpeers, List.append_assoc]
      rfl
  | addPeer key peer =>
    refine .silent rfl rfl hal ⟨read, hread, hlog⟩ hpeers ?_
    exact hb.tail (show Broker.Steps pb _ (.addPeer key peer) _ from rfl)
  | removePeer key =>
    refine .silent rfl rfl hal ⟨read, hread, hlog⟩ hpeers ?_
    exact hb.tail (show Broker.Steps pb _ (.removePeer key) _ from rfl)
  | stop => exact .silent rfl rfl hal ⟨read, hread, hlog⟩ hpeers hb

variable {s₀ : BrokerLoop ω} {tr : List (Event ω × BrokerLoop ω)}

theorem takes_of_run (h₀ : s₀.Initial) (hr : Run (ofFun (step pb)) s₀ tr s) :
    Takes pb (tr.map Prod.fst) s := by
  refine hr.traceInvariant (P := fun tr s => Takes pb (tr.map Prod.fst) s) (takes_initial h₀) ?_
  intro tr t e u _ ih h
  rw [List.map_append]
  exact ih.step h

/-- The loop loses, repeats and reorders no input: of the messages that arrived at the ROUTER
socket, those that were read were processed in order, the malformed ones left out, and the others
still wait, whole; the same of what the peer workers pushed. All the while the broker goes through
states of its step function. -/
theorem input_processed_in_order (h₀ : s₀.Initial) (hr : Run (ofFun (step pb)) s₀ tr s) :
    s.router.more = [] ∧
    (∃ read, (tr.map Prod.fst).filterMap Event.arrival = read ++ s.router.groups ∧
      s.log.filterMap Record.clientMessage = read.filterMap (message pb)) ∧
    (tr.map Prod.fst).filterMap Event.pushed =
      s.log.filterMap Record.peerMessage ++ s.peerInbound ∧
    Broker.Reachable pb s.broker := by
  have h := takes_of_run h₀ hr
  exact ⟨h.aligned, h.clients, h.peers, h.broker⟩

def freshLoop : BrokerLoop Unit :=
  { broker := { brokerId := "broker-1" }, lastCleanup := 0, clock := 0 }

theorem freshLoop_initial : freshLoop.Initial := ⟨"broker-1", 0, 0, le_refl 0, rfl⟩

def passAt (now : Time) : Event Unit :=
  .turn ⟨"00000000-0000-4000-8000-000000000010", rfl⟩ now now

/-- A client's heartbeat arrives and is processed; the timers are next. -/
def greeting : List (Event Unit) :=
  [.arrive "a" (Wire.send BrokerProto.proto3 (heartbeatEnvelope "a")), passAt 0, passAt 0, passAt 0]

def greeted : BrokerLoop Unit :=
  (exec (step BrokerProto.proto3) freshLoop greeting).get (by decide +kernel)

theorem greeted_run : Run (ofFun (step BrokerProto.proto3)) freshLoop
    (trace (step BrokerProto.proto3) freshLoop greeting) greeted :=
  exec_run (by simp [greeted])

theorem input_processed_in_order_greeted :
    greeted.log.filterMap Record.clientMessage = [("a", heartbeatEnvelope "a")] ∧
    Broker.Reachable BrokerProto.proto3 greeted.broker := by
  refine ⟨by decide +kernel, ?_⟩
  exact (input_processed_in_order freshLoop_initial greeted_run).2.2.2

/-- No entry is older than the last cleanup allows, and nothing is newer than the clock. -/
structure Swept (s : BrokerLoop ω) : Prop where
  notAhead : s.lastCleanup ≤ s.clock
  lastSeen : ∀ c client, s.broker.clients.lookup c = some client →
    s.lastCleanup - client.lastSeen ≤ Broker.clientTimeout

theorem swept_initial (h : s.Initial) : Swept s := by
  obtain ⟨id, t, t', -, rfl⟩ := h
  refine ⟨le_refl t', ?_⟩
  intro c client hc
  cases hc

theorem Swept.mono (h : Swept s) (hc : s.clock ≤ s'.clock) (hl : s'.lastCleanup = s.lastCleanup)
    (hb : ∀ c client, s'.broker.clients.lookup c = some client →
      s.broker.clients.lookup c = some client ∨ s.clock ≤ client.lastSeen) : Swept s' := by
  refine ⟨?_, fun c client hs => ?_⟩
  · rw [hl]
    exact h.notAhead.trans hc
  · rw [hl]
    rcases hb c client hs with hs | hs
    · exact h.lastSeen c client hs
    · have htimeout : 0 ≤ Broker.clientTimeout := by decide
      linarith [h.notAhead]

theorem Swept.cleanup (h : Swept s) (hw : s.broker.WellFormed) {now : Time} (hc : now ≤ s.clock) :
    Swept (s.cleanup now) ∧ now - (s.cleanup now).lastCleanup ≤ cleanupInterval := by
  unfold BrokerLoop.cleanup
  split_ifs with hd
  · refine ⟨⟨hc, fun c client hs => ?_⟩, by simp [cleanupInterval, seconds]⟩
    rw [Broker.lookup_sweep hw, Option.filter_eq_some_iff] at hs
    exact of_decide_eq_true hs.2
  · exact ⟨h, not_lt.mp hd⟩

theorem publish_frame (s : BrokerLoop ω) (now uptimeNow : Time) :
    (s.publish pb now uptimeNow).broker.clients = s.broker.clients ∧
    (s.publish pb now uptimeNow).broker.subscriptions = s.broker.subscriptions ∧
    (s.publish pb now uptimeNow).lastCleanup = s.lastCleanup := by
  unfold publish
  split_ifs
  · exact ⟨rfl, rfl, rfl⟩
  · exact ⟨rfl, rfl, rfl⟩

theorem Swept.timers (h : Swept s) (hw : s.broker.WellFormed) {now uptimeNow : Time}
    (hn : s.clock ≤ now) (hu : now ≤ uptimeNow) {t : BrokerLoop ω}
    (ht : t = (BrokerLoop.cleanup { s with clock := uptimeNow } now).publish pb now uptimeNow) :
    Swept t ∧ now - t.lastCleanup ≤ cleanupInterval := by
  have hs : Swept { s with clock := uptimeNow } :=
    h.mono (hn.trans hu) rfl fun c client hc => .inl hc
  obtain ⟨hc, hi⟩ := hs.cleanup hw hu
  have hf :=
    @publish_frame ω pb (BrokerLoop.cleanup { s with clock := uptimeNow } now) now uptimeNow
  subst ht
  refine ⟨hc.mono ?_ hf.2.2 fun c client hl => .inl ?_, ?_⟩
  · exact (publish_untouched pb _ now uptimeNow).clock.ge
  · rwa [hf.1] at hl
  · rwa [hf.2.2]

theorem Swept.step (h : Swept s) (ht : Takes pb events s) (hs : s.step pb e = some s') :
    Swept s' := by
  cases step_acts ht.aligned hs with
  | pass phase =>
    obtain ⟨⟨hn, hu⟩, -⟩ := step_turn hs
    exact h.mono (hn.trans hu) rfl fun c client hc => .inl hc
  | discard phase hg hm =>
    obtain ⟨⟨hn, hu⟩, -⟩ := step_turn hs
    exact h.mono (hn.trans hu) rfl fun c client hc => .inl hc
  | @client fresh now uptimeNow g rest identity env hg hm =>
    obtain ⟨⟨hn, hu⟩, -⟩ := step_turn hs
    refine h.mono (hn.trans hu) rfl fun c client hc => ?_
    by_cases hci : c = identity
    · subst hci
      simp only [Broker.lookup_processFromRouter_self] at hc
      split_ifs at hc
      obtain rfl := Option.some.inj hc
      exact .inr hn
    · simp only [Broker.lookup_processFromRouter_of_ne fresh now env hci] at hc
      exact .inl hc
  | @peer fresh now uptimeNow env rest hp =>
    obtain ⟨⟨hn, hu⟩, -⟩ := step_turn hs
    refine h.mono (hn.trans hu) rfl fun c client hc => .inl ?_
    rwa [(Broker.processFromPeer_frame fresh now env).1] at hc
  | timers hp =>
    obtain ⟨⟨hn, hu⟩, -⟩ := step_turn hs
    exact (h.timers ht.broker.wellFormed hn hu rfl).1.mono (le_refl _) rfl
      fun c client hc => .inl hc
  | arrive identity frames => exact h.mono (le_refl _) rfl fun c client hc => .inl hc
  | pushPeer env => exact h.mono (le_refl _) rfl fun c client hc => .inl hc
  | addPeer key peer =>
    refine h.mono (le_refl _) rfl fun c client hc => .inl ?_
    rwa [Broker.addPeer_frame] at hc
  | removePeer key => exact h.mono (le_refl _) rfl fun c client hc => .inl hc
  | stop => exact h.mono (le_refl _) rfl fun c client hc => .inl hc

theorem swept_of_run (h₀ : s₀.Initial) (hr : Run (ofFun (step pb)) s₀ tr s) : Swept s :=
  hr.traceInvariant (P := fun _ s => Swept s) (swept_initial h₀)
    fun _ _ _ _ hr ih h => ih.step (takes_of_run h₀ hr) h

/-- Whenever the timers have run, every client in the table was heard in the last twelve seconds:
the timeout, and the two seconds that can pass until the next cleanup. Nobody who was heard within
the timeout is touched. -/
theorem silent_clients_leave (h₀ : s₀.Initial) (hr : Run (ofFun (step pb)) s₀ tr s)
    (hp : s.phase = .timers) {fresh : Uuid} {now uptimeNow : Time}
    (hs : s.step pb (.turn fresh now uptimeNow) = some s') :
    (∀ c client, s'.broker.clients.lookup c = some client → now - client.lastSeen ≤ seconds 12) ∧
    (∀ c client, s.broker.clients.lookup c = some client →
      now - client.lastSeen ≤ Broker.clientTimeout →
      s'.broker.clients.lookup c = some client ∧
      s'.broker.subscriptions.subscriptionsOf c = s.broker.subscriptions.subscriptionsOf c) := by
  obtain ⟨⟨hn, hu⟩, hturn⟩ := step_turn hs
  obtain rfl :=
    Option.some.inj ((turn_timers (s := { s with clock := uptimeNow }) hp).symm.trans hturn)
  obtain ⟨hswept, hi⟩ := @Swept.timers ω pb s (swept_of_run h₀ hr)
    (takes_of_run h₀ hr).broker.wellFormed now uptimeNow hn hu _ rfl
  have hf := @publish_frame ω pb (cleanup { s with clock := uptimeNow } now) now uptimeNow
  refine ⟨fun c client hc => ?_, fun c client hc hfresh => ?_⟩
  · have hseen := hswept.lastSeen c client hc
    have hsum : cleanupInterval + Broker.clientTimeout = seconds 12 := by decide
    linarith
  · rw [hf.1, hf.2.1]
    unfold cleanup
    split_ifs
    · exact Broker.sweep_of_fresh now hc (not_lt.mpr hfresh)
    · exact ⟨hc, rfl⟩

theorem silent_clients_leave_greeted : ∃ s',
    greeted.step BrokerProto.proto3 (passAt (seconds 13)) = some s' ∧
    greeted.broker.clients.lookup "a" ≠ none ∧
    ∀ c client, s'.broker.clients.lookup c = some client →
      seconds 13 - client.lastSeen ≤ seconds 12 := by
  have hs : (greeted.step BrokerProto.proto3 (passAt (seconds 13))).isSome = true := by
    decide +kernel
  obtain ⟨s', hs⟩ := Option.isSome_iff_exists.mp hs
  have hknown : (greeted.broker.clients.lookup "a").isSome = true := by decide +kernel
  exact ⟨s', hs, Option.isSome_iff_ne_none.mp hknown,
    (silent_clients_leave freshLoop_initial greeted_run (by decide +kernel) hs).1⟩

/-- The counters and their times, which only `run` itself writes. -/
structure Tally where
  startTime : Time
  lastStatsTime : Time
  totalMessages : UInt64
  totalBytes : UInt64
  msgsInterval : UInt64
  bytesInterval : UInt64

def tally (b : Broker ω) : Tally :=
  ⟨b.startTime, b.lastStatsTime, b.totalMessages, b.totalBytes, b.msgsInterval, b.bytesInterval⟩

theorem processMessage_tally (b : Broker ω) (fresh : Uuid) (now : Time) (env : Envelope)
    (senderId : String) (isFromPeer : Bool) :
    tally (b.processMessage pb fresh now env senderId isFromPeer).1 = tally b := by
  cases isFromPeer with
  | true =>
    simp only [Broker.processMessage, if_true]
    split_ifs
    · rfl
    · rw [Broker.route_fst]
      rfl
  | false =>
    simp only [Broker.processMessage, Bool.false_eq_true, if_false, Broker.processLocal]
    split_ifs
    · rfl
    · rfl
    · rfl
    · rfl
    · rfl
    · rw [Broker.route_fst]
      rfl
    · rfl

def clientMessages (log : List (Record ω)) : List (String × Envelope) :=
  log.filterMap Record.clientMessage

/-- What `run` counts for a message: the serialised header without its format byte, and the
payload. -/
def wireBytes (pb : Protobuf) (env : Envelope) : ℕ :=
  (pb.serializeHeader env.header).length + env.payload.length

def clientBytes (pb : Protobuf) (log : List (Record ω)) : ℕ :=
  ((clientMessages log).map fun m => wireBytes pb m.2).sum

def sinceStats (log : List (Record ω)) : List (Record ω) := log.rtakeWhile fun r => !r.isStats

/-- What a broadcast says of the messages that went before it. -/
structure Reports (pb : Protobuf) (start clock : Time) (before : List (Record ω))
    (stats : SystemStats) (effects : List (Effect ω)) : Prop where
  shows : ∃ (b : Broker ω) (uptimeNow : Time), b.startTime = start ∧ start ≤ uptimeNow ∧
    uptimeNow ≤ clock ∧ stats = b.systemStats uptimeNow ∧ effects = b.broadcastStats pb uptimeNow
  totalMsgs : stats.totalMsgs = UInt64.ofNat (clientMessages before).length
  msgsPerSec : stats.msgsPerSec = UInt64.ofNat (clientMessages (sinceStats before)).length
  bytesPerSec : stats.bytesPerSec = UInt64.ofNat (clientBytes pb (sinceStats before))

structure Accounts (pb : Protobuf) (start : Time) (s : BrokerLoop ω) : Prop where
  startTime : s.broker.startTime = start
  totalMessages : s.broker.totalMessages = UInt64.ofNat (clientMessages s.log).length
  totalBytes : s.broker.totalBytes = UInt64.ofNat (clientBytes pb s.log)
  msgsInterval : s.broker.msgsInterval = UInt64.ofNat (clientMessages (sinceStats s.log)).length
  bytesInterval : s.broker.bytesInterval = UInt64.ofNat (clientBytes pb (sinceStats s.log))
  reports : ∀ before now stats effects after,
    s.log = before ++ .stats now stats effects :: after →
      Reports pb start s.clock before stats effects
  times : Periodic.Done (fun last now => now - last > statsInterval) start
    (s.log.filterMap Record.statsTime) s.broker.lastStatsTime
  notAhead : s.broker.lastStatsTime ≤ s.clock

variable {start : Time} {r : Record ω}

theorem sinceStats_concat (h : r.isStats = false) (log : List (Record ω)) :
    sinceStats (log ++ [r]) = sinceStats log ++ [r] :=
  List.rtakeWhile_concat_pos _ _ _ (by simp [h])

theorem statsTime_of_not_isStats (h : r.isStats = false) : r.statsTime = none := by
  cases r with
  | stats => cases h
  | _ => rfl

theorem Reports.mono {clock clock' : Time} {before : List (Record ω)} {stats : SystemStats}
    {effects : List (Effect ω)} (h : Reports pb start clock before stats effects)
    (hc : clock ≤ clock') : Reports pb start clock' before stats effects := by
  obtain ⟨⟨b, uptimeNow, hb, hs, hu, hst, hef⟩, h1, h2, h3⟩ := h
  exact ⟨⟨b, uptimeNow, hb, hs, hu.trans hc, hst, hef⟩, h1, h2, h3⟩

theorem reports_concat (h : r.isStats = false) {log : List (Record ω)} {clock clock' : Time}
    (hr : ∀ before now stats effects after,
      log = before ++ .stats now stats effects :: after →
        Reports pb start clock before stats effects) (hc : clock ≤ clock')
    (before : List (Record ω)) (now : Time) (stats : SystemStats) (effects : List (Effect ω))
    (after : List (Record ω)) (he : log ++ [r] = before ++ .stats now stats effects :: after) :
    Reports pb start clock' before stats effects := by
  obtain ⟨-, rfl⟩ | ⟨after', hl⟩ := append_singleton_eq he
  · cases h
  · exact (hr before now stats effects after' hl).mono hc

theorem Accounts.uncounted (h : Accounts pb start s) (ht : tally s'.broker = tally s.broker)
    (hl : s'.log = s.log ∨ ∃ r, s'.log = s.log ++ [r] ∧ r.isStats = false ∧ r.clientMessage = none)
    (hc : s.clock ≤ s'.clock) : Accounts pb start s' := by
  obtain ⟨hst, hlast, hm, hb, hmi, hbi⟩ := Tally.mk.inj ht
  obtain ⟨h0, h1, h2, h3, h4, h5, h6, h7⟩ := h
  rcases hl with hl | ⟨r, hl, hr, hn⟩
  · refine ⟨hst.trans h0, by rw [hm, hl, h1], by rw [hb, hl, h2], by rw [hmi, hl, h3],
      by rw [hbi, hl, h4], ?_, by rwa [hl, hlast], by rw [hlast]; exact h7.trans hc⟩
    intro before now stats effects after he
    exact (h5 before now stats effects after (hl.symm.trans he)).mono hc
  · have hmsgs : ∀ log, clientMessages (log ++ [r]) = clientMessages log :=
      filterMap_concat_none hn
    have hbytes : ∀ log, clientBytes pb (log ++ [r]) = clientBytes pb log := by
      intro log
      rw [clientBytes, hmsgs, clientBytes]
    refine ⟨hst.trans h0, ?_, ?_, ?_, ?_, ?_, ?_, ?_⟩
    · rw [hm, hl, hmsgs, h1]
    · rw [hb, hl, hbytes, h2]
    · rw [hmi, hl, sinceStats_concat hr, hmsgs, h3]
    · rw [hbi, hl, sinceStats_concat hr, hbytes, h4]
    · rw [hl]
      exact reports_concat hr h5 hc
    · rwa [hl, filterMap_concat_none (statsTime_of_not_isStats hr), hlast]
    · rw [hlast]
      exact h7.trans hc

theorem clientMessages_client (log : List (Record ω)) (identity : String) (env : Envelope)
    (effects : List (Effect ω)) : clientMessages (log ++ [.client identity env effects]) =
      clientMessages log ++ [(identity, env)] := by
  rw [clientMessages, List.filterMap_append]
  rfl

theorem clientBytes_client (log : List (Record ω)) (identity : String) (env : Envelope)
    (effects : List (Effect ω)) : clientBytes pb (log ++ [.client identity env effects]) =
      clientBytes pb log + wireBytes pb env := by
  simp [clientBytes, clientMessages_client]

/-- A message of a local client is counted before it is processed. -/
theorem processFromRouter_tally (b : Broker ω) (fresh : Uuid) (now : Time) (env : Envelope)
    (identity : String) : tally (b.processFromRouter pb fresh now env identity).1 =
      { tally b with
        totalMessages := b.totalMessages + 1
        totalBytes := b.totalBytes + UInt64.ofNat (wireBytes pb env)
        msgsInterval := b.msgsInterval + 1
        bytesInterval := b.bytesInterval + UInt64.ofNat (wireBytes pb env) } :=
  processMessage_tally _ fresh now env identity false

theorem Accounts.counted (h : Accounts pb start s) {fresh : Uuid} {now : Time} {env : Envelope}
    {identity : String} {effects : List (Effect ω)}
    (hb : s'.broker = (s.broker.processFromRouter pb fresh now env identity).1)
    (hl : s'.log = s.log ++ [.client identity env effects]) (hc : s.clock ≤ s'.clock) :
    Accounts pb start s' := by
  have ht := @processFromRouter_tally ω pb s.broker fresh now env identity
  rw [← hb] at ht
  obtain ⟨hst, hlast, hm, hby, hmi, hbi⟩ := Tally.mk.inj ht
  obtain ⟨h0, h1, h2, h3, h4, h5, h6, h7⟩ := h
  have hr : (Record.client identity env effects).isStats = false := rfl
  refine ⟨hst.trans h0, ?_, ?_, ?_, ?_, ?_, ?_, ?_⟩
  · rw [hm, hl, h1, clientMessages_client, List.length_append, UInt64.ofNat_add]
    rfl
  · rw [hby, hl, h2, clientBytes_client, UInt64.ofNat_add]
  · rw [hmi, hl, h3, sinceStats_concat hr, clientMessages_client, List.length_append,
      UInt64.ofNat_add]
    rfl
  · rw [hbi, hl, h4, sinceStats_concat hr, clientBytes_client, UInt64.ofNat_add]
  · rw [hl]
    exact reports_concat hr h5 hc
  · rwa [hl, filterMap_concat_none rfl, hlast]
  · rw [hlast]
    exact h7.trans hc

/-- The thread has not read a time before its start. -/
theorem Accounts.started (h : Accounts pb start s) : start ≤ s.clock := by
  have hrate : (s.log.filterMap Record.statsTime).length * seconds 1 ≤
      s.broker.lastStatsTime - start := h.times.length_mul_le fun t t' h => le_of_lt h
  have hpos : 0 ≤ (s.log.filterMap Record.statsTime).length * seconds 1 :=
    mul_nonneg (Int.natCast_nonneg _) (by decide)
  linarith [h.notAhead]

theorem Accounts.publish (h : Accounts pb start s) {now uptimeNow : Time} (hn : now ≤ s.clock)
    (hu : s.clock = uptimeNow) : Accounts pb start (s.publish pb now uptimeNow) := by
  unfold BrokerLoop.publish
  split_ifs with hdue
  swap
  · exact h
  have hstart : start ≤ uptimeNow := hu ▸ h.started
  obtain ⟨h0, h1, h2, h3, h4, h5, h6, h7⟩ := h
  have hmsgs : ∀ log, clientMessages (log ++ [.stats now (s.broker.systemStats uptimeNow)
      (s.broker.broadcastStats pb uptimeNow)]) = clientMessages log := filterMap_concat_none rfl
  have hsince : ∀ log, sinceStats (log ++ [.stats now (s.broker.systemStats uptimeNow)
      (s.broker.broadcastStats pb uptimeNow)]) = [] :=
    fun log => List.rtakeWhile_concat_neg _ _ _ (by simp [Record.isStats])
  refine ⟨h0, ?_, ?_, ?_, ?_, ?_, ?_, hn⟩
  · rw [hmsgs]
    exact h1
  · rw [clientBytes, hmsgs]
    exact h2
  · rw [hsince]
    rfl
  · rw [hsince]
    rfl
  · intro before t stats effects after he
    obtain ⟨rfl, hrec⟩ | ⟨after', hl⟩ := append_singleton_eq he
    · obtain ⟨-, rfl, rfl⟩ := Record.stats.inj hrec
      exact ⟨⟨s.broker, uptimeNow, h0, hstart, hu.ge, rfl, rfl⟩, h1, h3, h4⟩
    · exact h5 before t stats effects after' hl
  · rw [List.filterMap_append]
    exact h6.again hdue

theorem Accounts.step (h : Accounts pb start s) (ht : Takes pb events s)
    (hs : s.step pb e = some s') : Accounts pb start s' := by
  cases step_acts ht.aligned hs with
  | pass phase =>
    obtain ⟨⟨hn, hu⟩, -⟩ := step_turn hs
    exact h.uncounted rfl (.inl rfl) (hn.trans hu)
  | discard phase hg hm =>
    obtain ⟨⟨hn, hu⟩, -⟩ := step_turn hs
    exact h.uncounted rfl (.inl rfl) (hn.trans hu)
  | client hg hm =>
    obtain ⟨⟨hn, hu⟩, -⟩ := step_turn hs
    exact h.counted rfl rfl (hn.trans hu)
  | @peer fresh now uptimeNow env rest hp =>
    obtain ⟨⟨hn, hu⟩, -⟩ := step_turn hs
    exact h.uncounted (processMessage_tally s.broker fresh now env "PEER" true)
      (.inr ⟨_, rfl, rfl, rfl⟩) (hn.trans hu)
  | @timers fresh now uptimeNow hp =>
    obtain ⟨⟨hn, hu⟩, -⟩ := step_turn hs
    have hclean : Accounts pb start (cleanup { s with clock := uptimeNow } now) := by
      unfold cleanup
      split_ifs
      · exact h.uncounted (by rw [Broker.sweep_frame]; rfl) (.inr ⟨_, rfl, rfl, rfl⟩) (hn.trans hu)
      · exact h.uncounted rfl (.inl rfl) (hn.trans hu)
    have hclock : (cleanup { s with clock := uptimeNow } now).clock = uptimeNow :=
      (cleanup_untouched { s with clock := uptimeNow } now).clock
    exact (hclean.publish (hclock.symm ▸ hu) hclock).uncounted rfl (.inl rfl) (le_refl _)
  | arrive identity frames => exact h.uncounted rfl (.inl rfl) (le_refl _)
  | pushPeer env => exact h.uncounted rfl (.inl rfl) (le_refl _)
  | addPeer key peer =>
    exact h.uncounted (by rw [Broker.addPeer_frame]; rfl) (.inl rfl) (le_refl _)
  | removePeer key => exact h.uncounted rfl (.inl rfl) (le_refl _)
  | stop => exact h.uncounted rfl (.inl rfl) (le_refl _)

theorem accounts_initial (h : s.Initial) : Accounts pb s.broker.startTime s := by
  obtain ⟨id, t, t', ht, rfl⟩ := h
  refine ⟨rfl, rfl, rfl, rfl, rfl, ?_, .begin _ t, ht⟩
  intro before now stats effects after he
  simp at he

theorem accounts_of_run (h₀ : s₀.Initial) (hr : Run (ofFun (step pb)) s₀ tr s) :
    Accounts pb s₀.broker.startTime s :=
  hr.traceInvariant (P := fun _ s => Accounts pb s₀.broker.startTime s) (accounts_initial h₀)
    fun _ _ _ _ hr ih h => ih.step (takes_of_run h₀ hr) h

/-- Every broadcast reports the messages of local clients so far, and as its rates those since the
broadcast before; messages of peers do not count. It is about the message that its readers decode:
the total is a signed 64-bit number, the rate of messages a signed 32-bit one. Two broadcasts are
more than a second apart, so the rates are those of a longer time than they say. -/
theorem broadcasts_report (h₀ : s₀.Initial) (hr : Run (ofFun (step BrokerProto.proto3)) s₀ tr s)
    (hclock : s.clock - s₀.broker.startTime < 2 ^ 63) :
    (∀ before now stats effects after, s.log = before ++ .stats now stats effects :: after →
      ∃ payload m, ∃ ids : List String,
        effects = .inspect (Wire.encodeHeader BrokerProto.proto3 Broker.statsMsg) payload ::
          ids.map (fun id =>
            .sendToClient id (Wire.encodeHeader BrokerProto.proto3 Broker.statsMsg) payload) ∧
        Payload.decodePayload Payload.systemStats payload = some m ∧
        Payload.unpackTo Payload.systemStats payload = some m ∧
        m.totalMsgs = Int64.ofNat (clientMessages before).length ∧
        m.msgsPerSec = Int32.ofNat (clientMessages (sinceStats before)).length ∧
        m.kbPerSec = ((UInt64.ofNat
          (clientBytes BrokerProto.proto3 (sinceStats before))).toFloat / 1024).toBits) ∧
    List.IsChain (fun last now => now - last > seconds 1)
      (s₀.broker.startTime :: s.log.filterMap Record.statsTime) ∧
    (s.log.filterMap Record.statsTime).length * seconds 1 ≤ s.clock - s₀.broker.startTime := by
  have hacc := accounts_of_run h₀ hr
  refine ⟨fun before now stats effects after he => ?_, hacc.times.chain, ?_⟩
  · obtain ⟨⟨b, uptimeNow, hb, hs, hu, rfl, rfl⟩, h1, h2, h3⟩ :=
      hacc.reports before now stats effects after he
    have hrep : Broker.Representable (uptimeNow - b.startTime) := by
      rw [hb]
      constructor <;> linarith
    refine ⟨_, Payload.statsMessage (b.systemStats uptimeNow), _, Broker.broadcastStats_eq hrep,
      Payload.decodePayload_encodePayload _ _, Payload.unpackTo_encodePayload _ _, ?_, ?_, ?_⟩
    · rw [← Payload.int64_ofNat_uint64, ← h1]
      rfl
    · rw [← Payload.int32_ofNat_uint64, ← h2]
      rfl
    · rw [← h3]
      rfl
  · have hrate : (s.log.filterMap Record.statsTime).length * seconds 1 ≤
        s.broker.lastStatsTime - s₀.broker.startTime :=
      hacc.times.length_mul_le fun t t' h => le_of_lt h
    linarith [hacc.notAhead]

/-- The timers run when a broadcast is due. -/
def counted : BrokerLoop Unit :=
  (exec (step BrokerProto.proto3) freshLoop (greeting ++ [passAt (seconds 2)])).get
    (by decide +kernel)

theorem broadcasts_report_counted : ∃ before now stats payload effects m,
    counted.log = before ++
      [.stats now stats
        (.inspect (Wire.encodeHeader BrokerProto.proto3 Broker.statsMsg) payload :: effects)] ∧
    Payload.decodePayload Payload.systemStats payload = some m ∧ m.msgsPerSec = 1 := by
  have hr : Run (ofFun (step BrokerProto.proto3)) freshLoop
      (trace (step BrokerProto.proto3) freshLoop (greeting ++ [passAt (seconds 2)])) counted :=
    exec_run (by simp [counted])
  have hlast : (counted.log.getLast?.any Record.isStats) = true := by decide +kernel
  obtain ⟨r, hlast, hstats⟩ := (Option.any_eq_true _ _).mp hlast
  obtain ⟨before, hlog⟩ := List.getLast?_eq_some_iff.mp hlast
  cases r with
  | stats now stats effects =>
    obtain ⟨payload, m, ids, rfl, hm, -, -, hmsgs, -⟩ :=
      (broadcasts_report freshLoop_initial hr (by decide +kernel)).1 before now stats effects []
        hlog
    have hb : before = counted.log.dropLast := by rw [hlog, List.dropLast_concat]
    refine ⟨before, now, stats, payload, _, m, hlog, hm, hmsgs.trans ?_⟩
    rw [hb]
    decide +kernel
  | _ => cases hstats

end BrokerLoop

end ZmqPubSub
