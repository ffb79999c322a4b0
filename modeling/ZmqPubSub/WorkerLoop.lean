import ZmqPubSub.Broker
import ZmqPubSub.BrokerProto
import ZmqPubSub.Periodic
import ZmqPubSub.ZmqWorker

/-!
`ZmqWorker::run` with what its two queues do not show: the one message it reads in a pass and where
it goes, the heartbeat, the server timeout and the calls of the status callback.
-/

namespace ZmqPubSub

open Containers TransitionSystem

/-- Where a message goes that the worker has received. -/
inductive Sink
  | inboundQueue
  /-- `m_messageCallback`, which is called only without a queue. -/
  | messageCallback
  | nowhere
deriving DecidableEq

/-- Does the message get there? `accepted` is what the timed `push` into the queue returns. -/
def Sink.takes (accepted : Bool) : Sink → Bool
  | inboundQueue => accepted
  | messageCallback => true
  | nowhere => false

structure WorkerLoop where
  clientId : String
  sink : Sink
  worker : ZmqWorker Envelope := {}
  /-- What waits at the DEALER socket, each with the time at which it was sent. -/
  socket : List (Time × Wire.Group) := []
  isOnline : Bool := false
  lastRxTime : Time
  lastHeartbeat : Time
  /-- The last reading of the clock, and the last one by the timers. -/
  clock : Time
  lastPass : Time
  /-- The calls of `m_statusCallback`. No step reads this or what follows. -/
  status : List Bool := []
  received : List (Time × Envelope) := []
  /-- What went to the inbound queue or to the message callback, and what did not. -/
  handedOn : List Envelope := []
  dropped : List Envelope := []
  /-- When `sendHeartbeat` was called. -/
  heartbeats : List Time := []

namespace WorkerLoop

def heartbeatInterval : Time := seconds 3

def serverTimeout : Time := seconds 10

variable (pb : Protobuf) (s : WorkerLoop)

def receive (now : Time) (accepted : Bool) (inbound : Envelope) : WorkerLoop :=
  -- an acknowledgement has done its work with the time
  let further := if inbound.key = Keys.heartbeatAck then [] else [inbound]
  { s with
    lastRxTime := now
    isOnline := true
    status := if s.isOnline then s.status else s.status ++ [true]
    received := s.received ++ [(now, inbound)]
    handedOn := s.handedOn ++ if s.sink.takes accepted then further else []
    dropped := s.dropped ++ if s.sink.takes accepted then [] else further }

/-- At most one message is read in a pass, if the poll finds one. -/
def poll (now : Time) (readable accepted : Bool) : WorkerLoop :=
  match readable, s.socket with
  | true, (_, group) :: rest =>
    match Wire.recv pb group with
    | none => { s with socket := rest }
    | some inbound => receive { s with socket := rest } now accepted inbound
  | _, _ => s

def heartbeatDue (now : Time) : Bool := decide (now - s.lastHeartbeat > heartbeatInterval)

def sendHeartbeat (now : Time) : WorkerLoop :=
  if s.heartbeatDue now then
    { s with lastHeartbeat := now, heartbeats := s.heartbeats ++ [now] }
  else s

def checkServer (now : Time) : WorkerLoop :=
  if s.isOnline = true ∧ now - s.lastRxTime > serverTimeout then
    { s with isOnline := false, status := s.status ++ [false] }
  else s

def timers (now : Time) : WorkerLoop :=
  { (s.sendHeartbeat now).checkServer now with lastPass := now }

/-- The worker thread goes on, from where it is to the next place. On the way it calls `wire::send`
or the timed `push` at most once; `accepted` is what this returns. -/
def turn (now : Time) (readable accepted : Bool) : Option WorkerLoop :=
  (s.worker.turn (s.heartbeatDue now) accepted).map fun worker =>
    match s.worker.phase with
    | .poll => { s.poll pb now readable accepted with worker := worker }
    | .timers => { s.timers now with worker := worker }
    | _ => { s with worker := worker }

inductive Event
  | turn (now : Time) (readable accepted : Bool)
  | arrive (sent : Time) (group : Wire.Group)
  | writeControlMessage (env : Envelope)
  | writeMessage (env : Envelope)
  | stop

def step : Event → Option WorkerLoop
  | .turn now readable accepted =>
    if s.clock ≤ now then turn pb { s with clock := now } now readable accepted else none
  | .arrive sent group => some { s with socket := s.socket ++ [(sent, group)] }
  | .writeControlMessage env =>
    (s.worker.writeControlMessage env).map fun worker => { s with worker := worker }
  | .writeMessage env => (s.worker.writeMessage env).map fun worker => { s with worker := worker }
  | .stop => some { s with worker := s.worker.stop }

/-- A worker that has reported OFFLINE and is about to enter the loop. -/
def Initial (start : Time) : Prop :=
  ∃ clientId sink, s = { clientId := clientId, sink := sink, lastRxTime := start, clock := start
                         lastPass := start, lastHeartbeat := start - heartbeatInterval
                         status := [false] }

inductive Acts (pb : Protobuf) (s : WorkerLoop) : Event → WorkerLoop → Prop
  | idle {now : Time} {readable accepted : Bool} {worker : ZmqWorker Envelope}
      (sent : List (Sent Envelope)) : s.worker.phase ≠ .timers →
      worker.wire = s.worker.wire ++ sent → .heartbeat ∉ sent →
      Acts pb s (.turn now readable accepted) { s with worker := worker, clock := now }
  | garbage {now t : Time} {readable accepted : Bool} {group : Wire.Group}
      {worker : ZmqWorker Envelope} {rest : List (Time × Wire.Group)} : s.worker.phase = .poll →
      s.socket = (t, group) :: rest → Wire.recv pb group = none → worker.wire = s.worker.wire →
      Acts pb s (.turn now readable accepted)
        { s with worker := worker, clock := now, socket := rest }
  | read {now t : Time} {readable accepted : Bool} {group : Wire.Group} {inbound : Envelope}
      {worker : ZmqWorker Envelope} {rest : List (Time × Wire.Group)} : s.worker.phase = .poll →
      s.socket = (t, group) :: rest → Wire.recv pb group = some inbound →
      worker.wire = s.worker.wire → Acts pb s (.turn now readable accepted)
        { receive { s with clock := now, socket := rest } now accepted inbound with
          worker := worker }
  | pass {now : Time} {readable accepted : Bool} {worker : ZmqWorker Envelope} :
      s.worker.phase = .timers →
      worker.wire =
        s.worker.wire ++ (if s.heartbeatDue now ∧ accepted then [.heartbeat] else []) →
      Acts pb s (.turn now readable accepted)
        { timers { s with clock := now } now with worker := worker }
  | arrive (sent : Time) (group : Wire.Group) :
      Acts pb s (.arrive sent group) { s with socket := s.socket ++ [(sent, group)] }
  | write {e : Event} {worker : ZmqWorker Envelope} :
      (∀ now readable accepted, e ≠ .turn now readable accepted) →
      worker.wire = s.worker.wire → Acts pb s e { s with worker := worker }

variable {pb s} {s' : WorkerLoop} {e : Event}

theorem step_turn {now : Time} {readable accepted : Bool}
    (h : s.step pb (.turn now readable accepted) = some s') :
    s.clock ≤ now ∧ turn pb { s with clock := now } now readable accepted = some s' := by
  rw [step] at h
  by_cases hc : s.clock ≤ now
  · exact ⟨hc, by rwa [if_pos hc] at h⟩
  · rw [if_neg hc] at h
    cases h

theorem send_wire {α : Type*} (w : ZmqWorker α) (accepted : Bool) (x : Sent α) :
    (w.send accepted x).wire = w.wire ++ if accepted then [x] else [] := by
  cases accepted with
  | true => rfl
  | false => exact (List.append_nil w.wire).symm

/-- What the worker puts on the wire, by the place it is at. -/
theorem wire_of_turn {α : Type*} {w w' : ZmqWorker α} {due accepted : Bool}
    (h : w.turn due accepted = some w') :
    (w.phase = .timers ∧ w'.wire = w.wire ++ if due ∧ accepted then [.heartbeat] else []) ∨
    (w.phase = .poll ∧ w'.wire = w.wire) ∨
    (w.phase ≠ .timers ∧ w.phase ≠ .poll ∧
      ∃ sent, w'.wire = w.wire ++ sent ∧ Sent.heartbeat ∉ sent) := by
  have hnone : ∀ v : ZmqWorker α, v.wire = w.wire →
      ∃ sent, v.wire = w.wire ++ sent ∧ Sent.heartbeat ∉ sent :=
    fun v hv => ⟨[], by simp [hv], by simp⟩
  have hone : ∀ (v : ZmqWorker α) (x : α), v.wire = w.wire →
      ∃ sent, (v.send accepted (.message x)).wire = w.wire ++ sent ∧ Sent.heartbeat ∉ sent :=
    fun v x hv => ⟨_, by rw [send_wire, hv], by split_ifs <;> simp⟩
  cases ZmqWorker.turn_turns h with
  | enter hp hr => exact .inr (.inr ⟨by simp [hp], by simp [hp], hnone _ rfl⟩)
  | leave hp hr => exact .inr (.inr ⟨by simp [hp], by simp [hp], hnone _ rfl⟩)
  | polled hp => exact .inr (.inl ⟨hp, rfl⟩)
  | controlEmpty hp hq => exact .inr (.inr ⟨by simp [hp], by simp [hp], hnone _ rfl⟩)
  | @sendControl x rest hp hq =>
    refine .inr (.inr ⟨?_, ?_, hone _ x rfl⟩)
    · rcases hp with hp | hp <;> simp [hp]
    · rcases hp with hp | hp <;> simp [hp]
  | outboundEmpty hp hq => exact .inr (.inr ⟨by simp [hp], by simp [hp], hnone _ rfl⟩)
  | @sendOutbound x rest hp hq => exact .inr (.inr ⟨by simp [hp], by simp [hp], hone _ x rfl⟩)
  | notDue hp hd => exact .inl ⟨hp, by simp [hd]⟩
  | heartbeat hp hd => exact .inl ⟨hp, by simp [hd, send_wire]⟩
  | close hp hq => exact .inr (.inr ⟨by simp [hp], by simp [hp], hnone _ rfl⟩)

theorem poll_acts {now : Time} {worker : ZmqWorker Envelope} (hp : s.worker.phase = .poll)
    (hw : worker.wire = s.worker.wire) (readable accepted : Bool) :
    Acts pb s (.turn now readable accepted)
      { poll pb { s with clock := now } now readable accepted with worker := worker } := by
  unfold poll
  split
  · next t group rest hs =>
    split
    · next hr => exact .garbage hp hs hr hw
    · next inbound hr => exact .read hp hs hr hw
  · exact .idle [] (by simp [hp]) (by simp [hw]) (by simp)

theorem step_acts (h : s.step pb e = some s') : Acts pb s e s' := by
  cases e with
  | turn now readable accepted =>
    obtain ⟨-, h⟩ := step_turn h
    obtain ⟨worker, hw, rfl⟩ := Option.map_eq_some_iff.mp h
    replace hw : s.worker.turn (s.heartbeatDue now) accepted = some worker := hw
    rcases wire_of_turn hw with ⟨hp, hwire⟩ | ⟨hp, hwire⟩ | ⟨ht, hp, sent, hwire, hn⟩
    · simp only [hp]
      exact .pass hp hwire
    · simp only [hp]
      exact poll_acts hp hwire readable accepted
    · split
      · next hp' => exact absurd hp' hp
      · next hp' => exact absurd hp' ht
      · exact .idle sent ht hwire hn
  | arrive sent group =>
    cases h
    exact .arrive sent group
  | writeControlMessage env =>
    obtain ⟨worker, hw, rfl⟩ := Option.map_eq_some_iff.mp h
    refine .write (by simp) ?_
    unfold ZmqWorker.writeControlMessage at hw
    split_ifs at hw
    cases hw
    rfl
  | writeMessage env =>
    obtain ⟨worker, hw, rfl⟩ := Option.map_eq_some_iff.mp h
    refine .write (by simp) ?_
    unfold ZmqWorker.writeMessage at hw
    split_ifs at hw
    cases hw
    rfl
  | stop =>
    cases h
    exact .write (by simp) rfl

/-- The messages that are for somebody else than the worker. -/
def forOthers : List Envelope :=
  (s.received.map Prod.snd).filter fun env => env.key ≠ Keys.heartbeatAck

/-- What was received is handed on in order, or dropped where the source drops it. -/
structure HandedOn (s : WorkerLoop) : Prop where
  order : s.handedOn.Sublist s.forOthers
  all : s.forOthers.Perm (s.handedOn ++ s.dropped)
  callback : s.sink = .messageCallback → s.dropped = []
  nowhere : s.sink = .nowhere → s.handedOn = []

/-- The status callback, the flag and the times say the same. -/
structure Consistent (start : Time) (s : WorkerLoop) : Prop where
  status : Toggles (fun online => !online) s.status (s.isOnline = false)
  reported : s.status.getLast? = some s.isOnline
  lastRx : ((start :: s.received.map Prod.fst).getLast?) = some s.lastRxTime
  handedOn : s.HandedOn
  /-- An offline worker has heard nothing, or has waited too long. -/
  offline : s.isOnline = false → s.received = [] ∨ s.clock - s.lastRxTime > serverTimeout
  online : s.isOnline = true → s.received ≠ []
  heartbeats : Periodic.Done (fun last now => now - last > heartbeatInterval)
    (start - heartbeatInterval) s.heartbeats s.lastHeartbeat

variable {start : Time}

theorem consistent_initial (h : s.Initial start) : Consistent start s := by
  obtain ⟨clientId, sink, rfl⟩ := h
  exact ⟨toggles_nil.turnOn rfl id rfl, rfl, rfl, ⟨.refl _, .refl _, fun _ => rfl, fun _ => rfl⟩,
    fun _ => .inl rfl, by simp, .begin _ _⟩

/-- Time passes, and the queues of the worker and of its socket change. -/
theorem Consistent.mono (h : Consistent start s) (worker : ZmqWorker Envelope)
    (socket : List (Time × Wire.Group)) (lastPass : Time) {clock : Time} (hc : s.clock ≤ clock) :
    Consistent start
      { s with worker := worker, socket := socket, lastPass := lastPass, clock := clock } := by
  obtain ⟨h1, h2, h3, ⟨ho, ha, hcb, hn⟩, h5, h6, h7⟩ := h
  refine ⟨h1, h2, h3, ⟨ho, ha, hcb, hn⟩, fun hoff => ?_, h6, h7⟩
  rcases h5 hoff with hnone | ht
  · exact .inl hnone
  · exact .inr (lt_of_lt_of_le ht (sub_le_sub_right hc _))

theorem forOthers_receive (now : Time) (accepted : Bool) (inbound : Envelope) :
    (s.receive now accepted inbound).forOthers =
      s.forOthers ++ if inbound.key = Keys.heartbeatAck then [] else [inbound] := by
  simp only [forOthers, receive, List.map_append, List.filter_append]
  split_ifs with hack <;> simp [hack]

theorem HandedOn.receive (h : s.HandedOn) (now : Time) (accepted : Bool) (inbound : Envelope) :
    (s.receive now accepted inbound).HandedOn := by
  refine ⟨?_, ?_, fun hk => ?_, fun hk => ?_⟩
  · rw [forOthers_receive, WorkerLoop.receive]
    dsimp only
    refine h.order.append ?_
    split_ifs <;> simp
  · rw [forOthers_receive, WorkerLoop.receive]
    dsimp only
    generalize (if inbound.key = Keys.heartbeatAck then [] else [inbound]) = further
    split_ifs
    · rw [List.append_nil, List.append_assoc]
      have hswap : (further ++ s.dropped).Perm (s.dropped ++ further) := List.perm_append_comm
      refine (h.all.append_right further).trans ?_
      rw [List.append_assoc]
      exact hswap.symm.append_left s.handedOn
    · rw [List.append_nil, ← List.append_assoc]
      exact h.all.append_right further
  · have hk' : s.sink = .messageCallback := hk
    simp [WorkerLoop.receive, hk', Sink.takes, h.callback hk']
  · have hk' : s.sink = .nowhere := hk
    simp [WorkerLoop.receive, hk', Sink.takes, h.nowhere hk']

theorem Consistent.receive (h : Consistent start s) (now : Time) (accepted : Bool)
    (inbound : Envelope) : Consistent start (s.receive now accepted inbound) := by
  refine ⟨?_, ?_, ?_, h.handedOn.receive now accepted inbound,
    fun hoff => absurd hoff (by simp [WorkerLoop.receive]), fun _ => by simp [WorkerLoop.receive],
    h.heartbeats⟩
  · simp only [WorkerLoop.receive, Bool.true_eq_false]
    split_ifs with honline
    · exact h.status.congr (iff_of_false id (by simp [honline]))
    · exact h.status.turnOff (by simp) (by simpa using honline) id
  · simp only [WorkerLoop.receive]
    split_ifs with honline
    · rw [h.reported, honline]
    · exact List.getLast?_concat
  · rw [WorkerLoop.receive, List.map_append, ← List.cons_append]
    exact List.getLast?_concat

theorem Consistent.sendHeartbeat (h : Consistent start s) (now : Time) :
    Consistent start (s.sendHeartbeat now) := by
  unfold WorkerLoop.sendHeartbeat
  split_ifs with hd
  · obtain ⟨h1, h2, h3, ⟨ho, ha, hcb, hn⟩, h5, h6, h7⟩ := h
    exact ⟨h1, h2, h3, ⟨ho, ha, hcb, hn⟩, h5, h6, h7.again (of_decide_eq_true hd)⟩
  · exact h

theorem Consistent.checkServer (h : Consistent start s) :
    Consistent start (s.checkServer s.clock) := by
  unfold WorkerLoop.checkServer
  split_ifs with hd
  · obtain ⟨h1, -, h3, ⟨ho, ha, hcb, hn⟩, h5, h6, h7⟩ := h
    exact ⟨h1.turnOn rfl (by simp [hd.1]) rfl, List.getLast?_concat, h3, ⟨ho, ha, hcb, hn⟩,
      fun _ => .inr hd.2, by simp, h7⟩
  · exact h

theorem timers_lastHeartbeat (s : WorkerLoop) (now : Time) :
    (s.timers now).lastHeartbeat = if s.heartbeatDue now then now else s.lastHeartbeat := by
  unfold timers checkServer sendHeartbeat
  split_ifs <;> rfl

theorem timers_isOnline (s : WorkerLoop) (now : Time) :
    (s.timers now).isOnline = true ↔
      s.isOnline = true ∧ now - s.lastRxTime ≤ serverTimeout := by
  have hrx : (s.sendHeartbeat now).lastRxTime = s.lastRxTime ∧
      (s.sendHeartbeat now).isOnline = s.isOnline := by
    unfold sendHeartbeat
    split_ifs <;> exact ⟨rfl, rfl⟩
  unfold timers checkServer
  rw [hrx.1, hrx.2]
  split_ifs with hd
  · exact iff_of_false (by simp) fun h => not_lt.mpr h.2 hd.2
  · rw [hrx.2]
    exact ⟨fun hon => ⟨hon, not_lt.mp fun hlt => hd ⟨hon, hlt⟩⟩, And.left⟩

theorem timers_frame (s : WorkerLoop) (now : Time) :
    (s.timers now).clientId = s.clientId ∧ (s.timers now).socket = s.socket ∧
    (s.timers now).lastRxTime = s.lastRxTime ∧ (s.timers now).dropped = s.dropped := by
  unfold timers checkServer sendHeartbeat
  split_ifs <;> exact ⟨rfl, rfl, rfl, rfl⟩

theorem sendHeartbeat_clock (s : WorkerLoop) (now : Time) :
    (s.sendHeartbeat now).clock = s.clock := by
  unfold sendHeartbeat
  split_ifs <;> rfl

theorem Consistent.step (h : Consistent start s) (hs : s.step pb e = some s') :
    Consistent start s' := by
  cases step_acts hs with
  | idle sent hp hw hn => exact h.mono _ _ _ (step_turn hs).1
  | garbage hp hsock hr hw => exact h.mono _ _ _ (step_turn hs).1
  | @read now t readable accepted group inbound worker rest hp hsock hr hw =>
    have hc := (h.mono s.worker rest s.lastPass (step_turn hs).1).receive now accepted inbound
    exact hc.mono _ _ _ (le_refl _)
  | @pass now readable accepted worker hp hw =>
    have hc := h.mono s.worker s.socket s.lastPass (step_turn hs).1
    have hb := (hc.sendHeartbeat now).checkServer
    rw [sendHeartbeat_clock] at hb
    exact hb.mono _ _ _ (le_refl _)
  | arrive sent group => exact h.mono _ _ _ (le_refl _)
  | write hne hw => exact h.mono _ _ _ (le_refl _)

theorem Consistent.pass (h : Consistent start s) (hp : s.worker.phase = .timers) {now : Time}
    {readable accepted : Bool} (hs : s.step pb (.turn now readable accepted) = some s') :
    now - s'.lastHeartbeat ≤ heartbeatInterval ∧
    (s'.isOnline = true ↔ s.received ≠ [] ∧ now - s.lastRxTime ≤ serverTimeout) := by
  have hclock := (step_turn hs).1
  cases step_acts hs with
  | idle sent hp' => exact absurd hp hp'
  | garbage hp' => rw [hp] at hp'; cases hp'
  | read hp' => rw [hp] at hp'; cases hp'
  | write hne => exact absurd rfl (hne now readable accepted)
  | pass _ hw =>
    refine ⟨?_, ?_⟩
    · rw [timers_lastHeartbeat]
      split_ifs with hd
      · simp [heartbeatInterval, seconds]
      · exact not_lt.mp fun hlt => hd (decide_eq_true hlt)
    · refine (timers_isOnline { s with clock := now } now).trans
        ⟨fun ⟨hon, hrx⟩ => ⟨h.online hon, hrx⟩, fun ⟨hne, hrx⟩ => ⟨?_, hrx⟩⟩
      -- an offline worker that has heard something has waited too long already
      by_contra hoff
      rcases h.offline (Bool.eq_false_iff.mpr hoff) with hn | ht
      · exact hne hn
      · have hrx : now - s.lastRxTime ≤ serverTimeout := hrx
        linarith

/-- A message is dropped only where nobody takes it or the `push` fails. -/
theorem dropped_step (hs : s.step pb e = some s') (hd : s'.dropped ≠ s.dropped) :
    s.sink = .nowhere ∨ s.sink = .inboundQueue ∧ ∃ now readable, e = .turn now readable false := by
  cases step_acts hs with
  | idle | garbage | arrive | write => exact absurd rfl hd
  | pass => exact absurd (timers_frame _ _).2.2.2 hd
  | @read now t readable accepted group inbound worker rest hp hsock hr hw =>
    cases hk : s.sink with
    | nowhere => exact .inl rfl
    | messageCallback => exact absurd (by simp [receive, hk, Sink.takes]) hd
    | inboundQueue =>
      cases accepted with
      | true => exact absurd (by simp [receive, hk, Sink.takes]) hd
      | false => exact .inr ⟨rfl, now, readable, rfl⟩

variable {s₀ : WorkerLoop} {tr : List (Event × WorkerLoop)}

theorem consistent_of_run (h₀ : s₀.Initial start) (hr : Run (ofFun (step pb)) s₀ tr s) :
    Consistent start s :=
  hr.invariant (P := Consistent start) (consistent_initial h₀) fun _ _ _ ih h => ih.step h

/-- The status callback is told OFFLINE first and then each change once, so that its last call is
the state of the worker. After each pass the worker is online iff its latest message is at most ten
seconds old. Heartbeats are more than three seconds apart, and after each pass the latest one is at
most three seconds old. The messages that are not acknowledgements are handed on in order, all of
them to a message callback and none if there is nobody to take them; into the inbound queue go those
whose timed `push` succeeds. -/
theorem status_follows_messages (h₀ : s₀.Initial start) (hr : Run (ofFun (step pb)) s₀ tr s) :
    Alternates (fun online => !online) s.status ∧
    s.status.getLast? = some s.isOnline ∧
    (s.handedOn.Sublist s.forOthers ∧ s.forOthers.Perm (s.handedOn ++ s.dropped) ∧
      (s.sink = .messageCallback → s.handedOn = s.forOthers) ∧
      (s.sink = .nowhere → s.handedOn = []) ∧
      ∀ e s', s.step pb e = some s' → s'.dropped ≠ s.dropped → s.sink = .nowhere ∨
        s.sink = .inboundQueue ∧ ∃ now readable, e = .turn now readable false) ∧
    List.IsChain (fun last now => now - last > seconds 3) ((start - seconds 3) :: s.heartbeats) ∧
    ∀ now readable accepted s', s.worker.phase = .timers →
      s.step pb (.turn now readable accepted) = some s' →
      (s'.isOnline = true ↔
        ∃ t, (s.received.map Prod.fst).getLast? = some t ∧ now - t ≤ seconds 10) ∧
      ∃ t, ((start - seconds 3) :: s'.heartbeats).getLast? = some t ∧ now - t ≤ seconds 3 := by
  have h := consistent_of_run h₀ hr
  obtain ⟨horder, hall, hcallback, hnowhere⟩ := h.handedOn
  refine ⟨h.status.alternates, h.reported,
    ⟨horder, hall, fun hk => ?_, hnowhere, fun _ _ => dropped_step⟩, h.heartbeats.chain, ?_⟩
  · have hlen := hall.length_eq
    rw [hcallback hk, List.append_nil] at hlen
    exact horder.eq_of_length hlen.symm
  intro now readable accepted s' hp hs
  obtain ⟨hbeat, honline⟩ := h.pass hp hs
  refine ⟨honline.trans ?_, _, (h.step hs).heartbeats.last_eq, hbeat⟩
  have hlast := h.lastRx
  cases hrec : s.received.map Prod.fst with
  | nil => simp [List.map_eq_nil_iff.mp hrec]
  | cons t times =>
    have hne : s.received ≠ [] := by
      rintro he
      rw [he] at hrec
      cases hrec
    rw [hrec, List.getLast?_cons_cons] at hlast
    rw [hlast]
    simp [hne, serverTimeout]

def freshWorker : WorkerLoop where
  clientId := "client-a"
  sink := .inboundQueue
  lastRxTime := 0
  lastHeartbeat := 0 - heartbeatInterval
  clock := 0
  lastPass := 0
  status := [false]

/-- An acknowledgement is read in the first pass; the timers are next. -/
def answering : List Event :=
  [.arrive 0 (Wire.send BrokerProto.proto3 ⟨Broker.ackMsg, []⟩), .turn 0 false true,
    .turn 1 true true, .turn 1 false true, .turn 1 false true]

def answered : WorkerLoop :=
  (exec (step BrokerProto.proto3) freshWorker answering).get (by decide +kernel)

theorem status_follows_messages_answered : answered.status = [false, true] ∧
    ∃ s', answered.step BrokerProto.proto3 (.turn (seconds 1) false true) = some s' ∧
      s'.isOnline = true := by
  have hr : Run (ofFun (step BrokerProto.proto3)) freshWorker
      (trace (step BrokerProto.proto3) freshWorker answering) answered :=
    exec_run (by simp [answered])
  have hs : (answered.step BrokerProto.proto3 (.turn (seconds 1) false true)).isSome = true := by
    decide +kernel
  obtain ⟨s', hs⟩ := Option.isSome_iff_exists.mp hs
  have h := (status_follows_messages ⟨"client-a", .inboundQueue, rfl⟩ hr).2.2.2.2 (seconds 1)
    false true s' (by decide +kernel) hs
  exact ⟨by decide +kernel, s', hs, h.1.mpr ⟨1, by decide +kernel, by decide⟩⟩

end WorkerLoop

end ZmqPubSub
