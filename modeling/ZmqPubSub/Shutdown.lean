import ZmqPubSub.Handshake
import ZmqPubSub.InstanceLifetime
import ZmqPubSub.ZmqWorker

/-!
One client from its construction to the end of the destructor, and its broker: the API calls and
`shutdown` on any threads, the processing thread, the worker loop with its drains, and lossless
FIFO channels. The queues do not overflow. Loops that write one control message after the other
under `m_mapMutex` take one step for each, since `shutdown` does not take that lock.
-/

namespace ZmqPubSub

open TransitionSystem

structure Session (ω κ : Type*) where
  /-- The manager, with the queues of the worker it owns. -/
  client : ConnectionManager κ
  lifetime : SharedInstance := {}
  /-- `m_running` of the worker. -/
  workerRunning : Bool := true
  phase : WorkerPhase := .head
  wire : List (Sent Envelope) := []
  /-- What the status handler, on the worker thread, has still to write. -/
  announcing : List Envelope := []
  /-- The processing thread has popped a RESET and not yet entered `resubscribeAll`. -/
  resetting : Bool := false
  /-- What `resubscribeAll` has still to write. -/
  resubscribing : List Envelope := []
  up : List Wire.Group := []
  down : List Wire.Group := []
  broker : Broker ω

namespace Session

variable {ω κ : Type*}

inductive Event (ω κ : Type*)
  | lifetime (e : SharedInstance.Event)
  | register (key : String) (callback : κ) (owner : ℕ)
  | unregister (key : String) (owner : ℕ)
  /-- Any API call that ends in `sendRawEnvelope`. -/
  | send (env : Envelope)
  | receive
  | serverTimeout
  | announce
  | turn (heartbeatDue : Bool)
  | popInbound
  | resubscribeAll
  | resubscribe
  /-- The destructor, which has joined the processing thread, stops the worker. -/
  | stopWorker
  | brokerTakes (fresh : Uuid) (now : Time)
  | brokerTimesOut
  | brokerStep (e : Broker.Event ω)

variable (pb : Protobuf) (s : Session ω κ)

/-- The message that `shutdown` writes. -/
def byeMsg : Envelope := createControlEnvelope Keys.disconnect s.client.clientId ""

def sentGroup (clientId : String) : Sent Envelope → Wire.Group
  | .heartbeat => Wire.send pb (heartbeatEnvelope clientId)
  | .message env => Wire.send pb env

def worker : ZmqWorker Envelope where
  running := s.workerRunning
  phase := s.phase
  controlQueue := s.client.controlQueue
  outboundQueue := s.client.outboundQueue
  wire := s.wire

/-- The worker after a step of its own; what it sent is on its way. -/
def workerDoes (w : ZmqWorker Envelope) : Session ω κ :=
  { s with
    client := { s.client with controlQueue := w.controlQueue, outboundQueue := w.outboundQueue }
    workerRunning := w.running
    phase := w.phase
    wire := w.wire
    up := s.up ++ (w.wire.drop s.wire.length).map (sentGroup pb s.client.clientId) }

def brokerDoes (r : Broker ω × List (Effect ω)) : Session ω κ :=
  { s with broker := r.1, down := s.down ++ Handshake.delivered s.client.clientId r.2 }

/-- Run `f` up to its writes to the control queue, which are returned. -/
def withheld (f : ConnectionManager κ → ConnectionManager κ) (m : ConnectionManager κ) :
    List Envelope × ConnectionManager κ :=
  let m' := f { m with controlQueue := [] }
  (m'.controlQueue, { m' with controlQueue := m.controlQueue })

/-- Nobody holds `m_mapMutex` between two steps. -/
def MutexFree : Prop := s.announcing = [] ∧ s.resubscribing = []

instance : Decidable s.MutexFree := inferInstanceAs (Decidable (_ ∧ _))

def writeControl (env : Envelope) : Session ω κ :=
  { s with client := { s.client with controlQueue := s.client.controlQueue ++ [env] } }

def lifetimeStep : SharedInstance.Event → Option (Session ω κ)
  | .shutdown id =>
    (s.lifetime.step (.shutdown id)).map fun lifetime =>
      let s := if s.client.connected then s.writeControl s.byeMsg else s
      { s with lifetime := lifetime }
  -- the processing thread starts a callback when it has popped a message
  | .startCallback => none
  | .exitLoop =>
    if s.resetting ∨ s.resubscribing ≠ [] then none
    else (s.lifetime.step .exitLoop).map fun lifetime => { s with lifetime := lifetime }
  | e => (s.lifetime.step e).map fun lifetime => { s with lifetime := lifetime }

def receive (group : Wire.Group) (down : List Wire.Group) : Session ω κ :=
  match Wire.recv pb group with
  | none => { s with down := down, phase := .control }
  | some inbound =>
    let (announcing, client) := withheld (fun m => m.receive inbound) s.client
    { s with client := client, announcing := announcing, down := down, phase := .control }

def popInbound (env : Envelope) (rest : List Envelope) : Option (Session ω κ) :=
  let s := { s with client := { s.client with inboundQueue := rest } }
  if env.key = Keys.reset then some { s with resetting := true }
  else (s.lifetime.step .startCallback).map fun lifetime => { s with lifetime := lifetime }

def step : Event ω κ → Option (Session ω κ)
  | .lifetime e => s.lifetimeStep e
  | .register key callback owner =>
    -- `registerInternal` holds `m_initMutex` instead of a snapshot
    if (s.lifetime.published ∨ s.lifetime.snapshots ≠ []) ∧ s.MutexFree then
      some { s with client := s.client.performRegistration key callback owner }
    else none
  | .unregister key owner =>
    if s.lifetime.snapshots ≠ [] ∧ s.MutexFree then
      some { s with client := s.client.performUnregistration key owner }
    else none
  | .send env =>
    if s.lifetime.snapshots ≠ [] then some { s with client := s.client.sendRawEnvelope env }
    else none
  | .receive =>
    match s.down with
    | [] => none
    | group :: down =>
      -- only the status handler needs the lock
      if s.phase = .poll ∧ (s.client.isOnline ∨ s.MutexFree) then some (s.receive pb group down)
      else none
  | .serverTimeout =>
    if s.phase = .head ∧ s.client.isOnline ∧ s.MutexFree then
      some { s with client := s.client.serverTimeout }
    else none
  | .announce =>
    match s.announcing with
    | [] => none
    | env :: rest => some { s.writeControl env with announcing := rest }
  | .turn heartbeatDue =>
    -- the pipe is never full, so every `wire::send` goes through
    if s.announcing = [] then (s.worker.turn heartbeatDue true).map (s.workerDoes pb) else none
  | .popInbound =>
    if s.lifetime.processingThread = .looping ∧ s.lifetime.running ∧ s.resetting = false ∧
        s.resubscribing = [] then
      match s.client.inboundQueue with
      | [] => none
      | env :: rest => s.popInbound env rest
    else none
  | .resubscribeAll =>
    -- the loop takes `m_mapMutex` and keeps it until its last write
    if s.resetting ∧ s.MutexFree then
      let (resubscribing, client) := withheld ConnectionManager.resubscribeAll s.client
      some { s with client := client, resubscribing := resubscribing, resetting := false }
    else none
  | .resubscribe =>
    match s.resubscribing with
    | [] => none
    | env :: rest => some { s.writeControl env with resubscribing := rest }
  | .stopWorker =>
    if s.lifetime.destroyedBy.isSome ∧ s.lifetime.processingThread = .exited then
      some { s with workerRunning := false }
    else none
  | .brokerTakes fresh now =>
    match s.up with
    | [] => none
    | group :: up =>
      match Wire.recv pb group with
      | none => some { s with up := up }
      | some env => some (brokerDoes { s with up := up }
          (s.broker.processFromRouter pb fresh now env s.client.clientId))
  | .brokerTimesOut => some { s with broker := s.broker.removeClient s.client.clientId }
  | .brokerStep e =>
    if e.sender = some s.client.clientId then none else some (s.brokerDoes (s.broker.step pb e))

def Step : Session ω κ → Event ω κ → Session ω κ → Prop := ofFun (step pb)

def Initial : Prop :=
  ∃ clientId b, s = { client := { clientId := clientId }, broker := b } ∧ Broker.Reachable pb b

/-- The outbound drain of this turn is still to come or not yet over. -/
def beforeOutboundEnd : WorkerPhase → Bool
  | .poll | .control | .outbound => true
  | _ => false

/-- Once `shutdown` has reset `m_instance`: nobody writes another control message; the control drain
does not take the DISCONNECT while data waits in the other queue; and after it has taken it, no data
is written that this turn would still send, no turn begins with data waiting, and no heartbeat is
due. `shutdown` is called on a connected client. -/
def Quiet (s : Session ω κ) : Event ω κ → Prop
  | .lifetime (.shutdown _) => s.client.connected = true
  | .register _ _ _ => s.lifetime.published = false → s.client.connected = false
  | .unregister key owner => s.lifetime.published = false →
      ¬ (s.client.connected = true ∧ s.client.OnlyOwner key owner)
  | .send env => s.lifetime.published = false → Keys.isControlMessage env.key = false ∧
      (s.client.controlQueue = [] → beforeOutboundEnd s.phase = false)
  | .announce => s.lifetime.published = true
  | .resubscribe => s.lifetime.published = true
  | .turn heartbeatDue => s.lifetime.published = false →
      (s.phase = .control → s.client.controlQueue.length = 1 → s.client.outboundQueue = []) ∧
      (s.phase = .head → s.workerRunning = true → s.client.controlQueue = [] →
        s.client.outboundQueue = []) ∧
      (s.phase = .timers → heartbeatDue = true → s.client.controlQueue ≠ [])
  | _ => True

instance (s : Session ω κ) : (e : Event ω κ) → Decidable (s.Quiet e)
  | .lifetime (.shutdown _) => inferInstanceAs (Decidable (_ = _))
  | .register _ _ _ => inferInstanceAs (Decidable (_ → _))
  | .unregister _ _ => inferInstanceAs (Decidable (_ → ¬ (_ ∧ _)))
  | .send _ => inferInstanceAs (Decidable (_ → _ ∧ (_ → _)))
  | .announce | .resubscribe => inferInstanceAs (Decidable (_ = _))
  | .turn _ => inferInstanceAs (Decidable (_ → (_ → _ → _) ∧ (_ → _ → _ → _) ∧ (_ → _ → _ ≠ _)))
  | .lifetime (.getInstance _) | .lifetime (.release _) | .lifetime .dropTmp
  | .lifetime .startCallback | .lifetime .endCallback | .lifetime .exitLoop
  | .receive | .serverTimeout | .popInbound | .resubscribeAll | .stopWorker
  | .brokerTakes _ _ | .brokerTimesOut | .brokerStep _ => inferInstanceAs (Decidable True)

/-- The reference counting of the step, if it has any, is not that of `shutdown`. -/
def Counts (s s' : Session ω κ) : Prop :=
  s'.lifetime = s.lifetime ∨
    ∃ x, (∀ id, x ≠ SharedInstance.Event.shutdown id) ∧ s.lifetime.step x = some s'.lifetime

/-- Manager, worker and channel are as before, as far as the wire depends on them. -/
structure Keeps (s s' : Session ω κ) : Prop where
  clientId : s'.client.clientId = s.client.clientId
  controlQueue : s'.client.controlQueue = s.client.controlQueue
  outboundQueue : s'.client.outboundQueue = s.client.outboundQueue
  workerRunning : s'.workerRunning = s.workerRunning
  wire : s'.wire = s.wire

/-- The broker after it has taken a group of the client's from its socket. -/
inductive Takes (s : Session ω κ) (group : Wire.Group) : Broker ω → Prop
  | undecoded : Wire.recv pb group = none → Takes s group s.broker
  | processed {env : Envelope} (fresh : Uuid) (now : Time) : Wire.recv pb group = some env →
      Takes s group (s.broker.processFromRouter pb fresh now env s.client.clientId).1

inductive Moves (s : Session ω κ) (e : Event ω κ) (s' : Session ω κ) : Prop
  /-- Nothing is written, sent or taken. -/
  | inside (keeps : Keeps s s') (counts : Counts s s')
      (phase : s'.phase = s.phase ∨ (s.phase = .poll ∧ s'.phase = .control))
      (up : s'.up = s.up) (broker : s'.broker = s.broker)
  | write (control outbound : List Envelope)
      (client : s'.client.clientId = s.client.clientId ∧
        s'.client.controlQueue = s.client.controlQueue ++ control ∧
        s'.client.outboundQueue = s.client.outboundQueue ++ outbound)
      (quiet : s.Quiet e → s.lifetime.published = false → control = [] ∧
        (outbound = [] ∨ (s.client.controlQueue = [] → beforeOutboundEnd s.phase = false)))
      (same : s'.lifetime = s.lifetime ∧ s'.workerRunning = s.workerRunning ∧
        s'.phase = s.phase ∧ s'.wire = s.wire ∧ s'.up = s.up ∧ s'.broker = s.broker)
  | shutdown (id : ℕ) (event : e = .lifetime (.shutdown id))
      (counts : s.lifetime.step (.shutdown id) = some s'.lifetime)
      (eq : s' = { (if s.client.connected then s.writeControl s.byeMsg else s) with
        lifetime := s'.lifetime })
  | turn (heartbeatDue : Bool) (w : ZmqWorker Envelope) (event : e = .turn heartbeatDue)
      (turns : s.worker.Turns heartbeatDue true w) (eq : s' = s.workerDoes pb w)
  | stopWorker (destroyed : s.lifetime.destroyedBy.isSome)
      (eq : s' = { s with workerRunning := false })
  | broker (keeps : Keeps s s') (lifetime : s'.lifetime = s.lifetime) (phase : s'.phase = s.phase)
      (takes : (∃ group, s.up = group :: s'.up ∧ Takes pb s group s'.broker) ∨
        (s'.up = s.up ∧ s'.broker = s.broker.removeClient s.client.clientId) ∨
        (s'.up = s.up ∧ ∃ x : Broker.Event ω, x.sender ≠ some s.client.clientId ∧
          s'.broker = (s.broker.step pb x).1))

variable {pb s} {s' : Session ω κ} {e : Event ω κ}

theorem moves_lifetime {x : SharedInstance.Event} (h : s.lifetimeStep x = some s') :
    Moves pb s (.lifetime x) s' := by
  have hother : ∀ lifetime, s.lifetime.step x = some lifetime →
      (∀ id, x ≠ SharedInstance.Event.shutdown id) → s' = { s with lifetime := lifetime } →
      Moves pb s (.lifetime x) s' := by
    rintro lifetime hl hx rfl
    exact .inside ⟨rfl, rfl, rfl, rfl, rfl⟩ (.inr ⟨x, hx, hl⟩) (.inl rfl) rfl rfl
  cases x with
  | shutdown id =>
    obtain ⟨lifetime, hl, rfl⟩ := Option.map_eq_some_iff.mp h
    exact .shutdown id rfl hl rfl
  | startCallback => cases h
  | exitLoop =>
    simp only [lifetimeStep] at h
    split_ifs at h
    obtain ⟨lifetime, hl, rfl⟩ := Option.map_eq_some_iff.mp h
    exact hother lifetime hl (by simp) rfl
  | getInstance thread =>
    obtain ⟨lifetime, hl, rfl⟩ := Option.map_eq_some_iff.mp h
    exact hother lifetime hl (by simp) rfl
  | release thread =>
    obtain ⟨lifetime, hl, rfl⟩ := Option.map_eq_some_iff.mp h
    exact hother lifetime hl (by simp) rfl
  | dropTmp =>
    obtain ⟨lifetime, hl, rfl⟩ := Option.map_eq_some_iff.mp h
    exact hother lifetime hl (by simp) rfl
  | endCallback =>
    obtain ⟨lifetime, hl, rfl⟩ := Option.map_eq_some_iff.mp h
    exact hother lifetime hl (by simp) rfl

theorem moves_register (key : String) (callback : κ) (owner : ℕ) :
    Moves pb s (.register key callback owner)
      { s with client := s.client.performRegistration key callback owner } := by
  rw [ConnectionManager.performRegistration_eq]
  refine .write _ [] ⟨rfl, rfl, (List.append_nil _).symm⟩ ?_ ⟨rfl, rfl, rfl, rfl, rfl, rfl⟩
  intro hq hp
  have hc : s.client.connected = false := hq hp
  exact ⟨by simp [hc], .inl rfl⟩

theorem moves_unregister (key : String) (owner : ℕ) :
    Moves pb s (.unregister key owner)
      { s with client := s.client.performUnregistration key owner } := by
  rcases s.client.performUnregistration_cases key owner with ⟨handlers, he, -⟩ | ⟨honly, he⟩
  · rw [he]
    exact .inside ⟨rfl, rfl, rfl, rfl, rfl⟩ (.inl rfl) (.inl rfl) rfl rfl
  · rw [he]
    refine .write _ [] ⟨rfl, rfl, (List.append_nil _).symm⟩ ?_ ⟨rfl, rfl, rfl, rfl, rfl, rfl⟩
    intro hq hp
    have hc : s.client.connected = false := by
      have hn : ¬ (s.client.connected = true ∧ s.client.OnlyOwner key owner) := hq hp
      exact Bool.eq_false_iff.mpr fun hc => hn ⟨hc, honly⟩
    exact ⟨by simp [hc], .inl rfl⟩

theorem moves_send (env : Envelope) :
    Moves pb s (.send env) { s with client := s.client.sendRawEnvelope env } := by
  unfold ConnectionManager.sendRawEnvelope
  split_ifs with hk
  · refine .write [env] [] ⟨rfl, rfl, (List.append_nil _).symm⟩ ?_ ⟨rfl, rfl, rfl, rfl, rfl, rfl⟩
    intro hq hp
    have hdata : Keys.isControlMessage env.key = false := (hq hp).1
    exact absurd (hk.symm.trans hdata) (by decide)
  · refine .write [] [env] ⟨rfl, (List.append_nil _).symm, rfl⟩ ?_ ⟨rfl, rfl, rfl, rfl, rfl, rfl⟩
    intro hq hp
    exact ⟨rfl, .inr (hq hp).2⟩

theorem moves_writeControl (env : Envelope) (announcing resubscribing : List Envelope)
    (hq : s.Quiet e → s.lifetime.published = true) :
    Moves pb s e { s.writeControl env with
      announcing := announcing, resubscribing := resubscribing } := by
  refine .write [env] [] ⟨rfl, rfl, (List.append_nil _).symm⟩ ?_ ⟨rfl, rfl, rfl, rfl, rfl, rfl⟩
  intro hquiet hp
  exact absurd ((hq hquiet).symm.trans hp) (by decide)

theorem moves_receive (hphase : s.phase = .poll) (group : Wire.Group) (down : List Wire.Group) :
    Moves pb s .receive (s.receive pb group down) := by
  unfold receive
  split
  · exact .inside ⟨rfl, rfl, rfl, rfl, rfl⟩ (.inl rfl) (.inr ⟨hphase, rfl⟩) rfl rfl
  · next inbound _ =>
    refine .inside ⟨?_, rfl, ?_, rfl, rfl⟩ (.inl rfl) (.inr ⟨hphase, rfl⟩) rfl rfl
    · exact ConnectionManager.clientId_receive inbound
    · exact ConnectionManager.outboundQueue_receive inbound

theorem moves_popInbound {env : Envelope} {rest : List Envelope}
    (h : s.popInbound env rest = some s') : Moves pb s .popInbound s' := by
  unfold popInbound at h
  dsimp only at h
  split_ifs at h
  · cases h
    exact .inside ⟨rfl, rfl, rfl, rfl, rfl⟩ (.inl rfl) (.inl rfl) rfl rfl
  · obtain ⟨lifetime, hl, rfl⟩ := Option.map_eq_some_iff.mp h
    exact .inside ⟨rfl, rfl, rfl, rfl, rfl⟩ (.inr ⟨.startCallback, by simp, hl⟩) (.inl rfl) rfl rfl

theorem step_moves (h : Step pb s e s') : Moves pb s e s' := by
  change s.step pb e = some s' at h
  cases e with
  | lifetime x => exact moves_lifetime h
  | register key callback owner =>
    simp only [step] at h
    split_ifs at h
    cases h
    exact moves_register key callback owner
  | unregister key owner =>
    simp only [step] at h
    split_ifs at h
    cases h
    exact moves_unregister key owner
  | send env =>
    simp only [step] at h
    split_ifs at h
    cases h
    exact moves_send env
  | receive =>
    simp only [step] at h
    split at h
    · cases h
    · split_ifs at h with hp
      cases h
      exact moves_receive hp.1 _ _
  | serverTimeout =>
    simp only [step] at h
    split_ifs at h
    cases h
    exact .inside ⟨rfl, rfl, rfl, rfl, rfl⟩ (.inl rfl) (.inl rfl) rfl rfl
  | announce =>
    simp only [step] at h
    split at h
    · cases h
    · cases h
      exact moves_writeControl _ _ _ id
  | turn heartbeatDue =>
    simp only [step] at h
    split_ifs at h
    obtain ⟨w, hw, rfl⟩ := Option.map_eq_some_iff.mp h
    exact .turn heartbeatDue w rfl (ZmqWorker.turn_turns hw) rfl
  | popInbound =>
    simp only [step] at h
    split_ifs at h
    split at h
    · cases h
    · exact moves_popInbound h
  | resubscribeAll =>
    simp only [step] at h
    split_ifs at h
    cases h
    refine .inside ⟨?_, rfl, ?_, rfl, rfl⟩ (.inl rfl) (.inl rfl) rfl rfl
    · simp only [withheld, ConnectionManager.resubscribeAll, ConnectionManager.sendSubscriptions_eq]
    · simp only [withheld, ConnectionManager.resubscribeAll, ConnectionManager.sendSubscriptions_eq]
  | resubscribe =>
    simp only [step] at h
    split at h
    · cases h
    · cases h
      exact moves_writeControl _ _ _ id
  | stopWorker =>
    simp only [step] at h
    split_ifs at h with hd
    cases h
    exact .stopWorker hd.1 rfl
  | brokerTakes fresh now =>
    simp only [step] at h
    split at h
    · cases h
    · next group up hu =>
      split at h
      · next hr =>
        cases h
        exact .broker ⟨rfl, rfl, rfl, rfl, rfl⟩ rfl rfl (.inl ⟨group, hu, .undecoded hr⟩)
      · next env hr =>
        cases h
        exact .broker ⟨rfl, rfl, rfl, rfl, rfl⟩ rfl rfl (.inl ⟨group, hu, .processed fresh now hr⟩)
  | brokerTimesOut =>
    cases h
    exact .broker ⟨rfl, rfl, rfl, rfl, rfl⟩ rfl rfl (.inr (.inl ⟨rfl, rfl⟩))
  | brokerStep x =>
    simp only [step] at h
    split_ifs at h with hx
    cases h
    exact .broker ⟨rfl, rfl, rfl, rfl, rfl⟩ rfl rfl (.inr (.inr ⟨rfl, x, hx, rfl⟩))

/-- The DISCONNECT is the last message of the control queue, or the last one on the wire with
nothing to follow it. -/
inductive Leaving (s : Session ω κ) : Prop
  | queued (before : List Envelope) (queue : s.client.controlQueue = before ++ [s.byeMsg])
      (phase : s.phase ≠ .closed)
  | sent (last : s.wire.getLast? = some (.message s.byeMsg)) (control : s.client.controlQueue = [])
      (outbound : beforeOutboundEnd s.phase = true → s.client.outboundQueue = [])

structure Closing (s : Session ω κ) : Prop where
  counted : s.lifetime.Counted
  stopped : s.workerRunning = false → s.lifetime.published = false
  ended : s.phase = .finalDrain ∨ s.phase = .closed → s.workerRunning = false
  leaving : s.lifetime.published = false → s.Leaving

theorem byeMsg_congr (h : s'.client.clientId = s.client.clientId) : s'.byeMsg = s.byeMsg := by
  rw [byeMsg, byeMsg, h]

theorem Leaving.keeps (h : s.Leaving) (hk : Keeps s s')
    (hp : s'.phase = s.phase ∨ (s.phase = .poll ∧ s'.phase = .control)) : s'.Leaving := by
  have hbye := byeMsg_congr hk.clientId
  cases h with
  | queued before queue phase =>
    refine .queued before ?_ ?_
    · rw [hk.controlQueue, hbye, queue]
    · rcases hp with hp | ⟨-, hp⟩
      · rwa [hp]
      · simp [hp]
  | sent last control outbound =>
    refine .sent ?_ ?_ ?_
    · rw [hk.wire, hbye, last]
    · rw [hk.controlQueue, control]
    · intro hb
      rw [hk.outboundQueue]
      apply outbound
      rcases hp with hp | ⟨hp, -⟩
      · rwa [← hp]
      · rw [hp]
        rfl

theorem Leaving.moveTo (h : s.Leaving) {p : WorkerPhase}
    (hclosed : p = .closed → s.client.controlQueue = [])
    (hdata : beforeOutboundEnd p = true → s.client.controlQueue = [] →
      beforeOutboundEnd s.phase = true ∨ s.client.outboundQueue = []) :
    (s.workerDoes pb { s.worker with phase := p }).Leaving := by
  cases h with
  | queued before queue _ =>
    refine .queued before queue ?_
    intro hp
    have hnil := hclosed hp
    rw [queue] at hnil
    simp at hnil
  | sent last control outbound =>
    refine .sent last control ?_
    intro hb
    rcases hdata hb control with hb | hnil
    · exact outbound hb
    · exact hnil

theorem Leaving.turn {heartbeatDue : Bool} {w : ZmqWorker Envelope} (h : s.Leaving)
    (hp : s.lifetime.published = false) (hq : s.Quiet (.turn heartbeatDue))
    (ht : s.worker.Turns heartbeatDue true w) : (s.workerDoes pb w).Leaving := by
  obtain ⟨htake, henter, hdue⟩ := hq hp
  have hbefore : s.phase = .poll ∨ s.phase = .control ∨ s.phase = .outbound →
      beforeOutboundEnd s.phase = true := by
    rintro (hphase | hphase | hphase) <;> rw [hphase] <;> rfl
  cases ht with
  | enter hphase hrun => exact h.moveTo (by simp) fun _ hc => .inr (henter hphase hrun hc)
  | leave => exact h.moveTo (by simp) (by simp [beforeOutboundEnd])
  | polled hphase => exact h.moveTo (by simp) fun _ _ => .inl (hbefore (.inl hphase))
  | controlEmpty hphase _ =>
    exact h.moveTo (by simp) fun _ _ => .inl (hbefore (.inr (.inl hphase)))
  | @sendControl x rest hphase hqueue =>
    replace hqueue : s.client.controlQueue = x :: rest := hqueue
    cases h with
    | sent _ control _ => exact absurd (control.symm.trans hqueue) (by simp)
    | queued before queue hopen =>
      rw [queue] at hqueue
      cases before with
      | cons y before =>
        cases hqueue
        exact .queued before rfl hopen
      | nil =>
        cases hqueue
        refine .sent List.getLast?_concat rfl ?_
        intro hb
        rcases hphase with hphase | hphase
        · exact htake hphase (by rw [queue]; rfl)
        · -- in the final drain the other queue is not looked at any more
          replace hb : beforeOutboundEnd s.phase = true := hb
          rw [show s.phase = .finalDrain from hphase] at hb
          cases hb
  | outboundEmpty => exact h.moveTo (by simp) (by simp [beforeOutboundEnd])
  | @sendOutbound x rest hphase hqueue =>
    cases h with
    | queued before queue hopen => exact .queued before queue hopen
    | sent last control outbound =>
      have hnil := outbound (hbefore (.inr (.inr hphase)))
      exact absurd (hnil.symm.trans hqueue) (by simp)
  | notDue => exact h.moveTo (by simp) (by simp [beforeOutboundEnd])
  | heartbeat hphase hd =>
    cases h with
    | queued before queue _ => exact .queued before queue (by simp [workerDoes])
    | sent _ control _ => exact absurd control (hdue hphase hd)
  | close _ hqueue => exact h.moveTo (fun _ => hqueue) (by simp [beforeOutboundEnd])

theorem Closing.step (h : s.Closing) (hs : guarded Quiet (Step pb) s e s') : s'.Closing := by
  obtain ⟨hq, hstep⟩ := hs
  cases step_moves hstep with
  | inside keeps counts phase _ _ =>
    have hpub : s'.lifetime.published = s.lifetime.published := by
      rcases counts with hl | ⟨x, hx, hl⟩
      · rw [hl]
      · exact SharedInstance.published_of_step hl hx
    refine ⟨?_, ?_, ?_, ?_⟩
    · rcases counts with hl | ⟨x, -, hl⟩
      · rw [hl]
        exact h.counted
      · exact h.counted.step hl
    · rw [keeps.workerRunning, hpub]
      exact h.stopped
    · intro hend
      rw [keeps.workerRunning]
      apply h.ended
      rcases phase with hp | ⟨-, hp⟩
      · rwa [hp] at hend
      · simp [hp] at hend
    · rw [hpub]
      exact fun hp => (h.leaving hp).keeps keeps phase
  | write control outbound client quiet same =>
    obtain ⟨hid, hcontrol, houtbound⟩ := client
    obtain ⟨hl, hrun, hphase, hwire, -, -⟩ := same
    refine ⟨hl ▸ h.counted, ?_, ?_, ?_⟩
    · rw [hrun, hl]
      exact h.stopped
    · rw [hrun, hphase]
      exact h.ended
    · -- nothing gets behind the DISCONNECT in its queue, and data only where it stays unsent
      rw [hl]
      intro hp
      obtain ⟨rfl, hdata⟩ := quiet hq hp
      rw [List.append_nil] at hcontrol
      cases h.leaving hp with
      | queued before queue hopen =>
        refine .queued before ?_ (hphase ▸ hopen)
        rw [hcontrol, byeMsg_congr hid, queue]
      | sent last hnone hout =>
        refine .sent ?_ (hcontrol.trans hnone) ?_
        · rw [hwire, byeMsg_congr hid, last]
        · rw [hphase]
          intro hb
          rcases hdata with rfl | hdata
          · rw [houtbound, hout hb]
            rfl
          · exact absurd (hdata hnone) (by simp [hb])
  | shutdown id event counts eq =>
    subst event
    have hc : s.client.connected = true := hq
    have hpub := SharedInstance.published_of_shutdown counts
    -- the worker is stopped by the destructor only, so the socket is still open
    have hrun : s.workerRunning = true := by
      by_contra hrun
      exact absurd (hpub.1.symm.trans (h.stopped (by simpa using hrun))) (by decide)
    rw [if_pos hc] at eq
    refine ⟨h.counted.step counts, fun _ => hpub.2, ?_, fun _ => ?_⟩
    · rw [eq]
      exact h.ended
    · rw [eq]
      refine .queued s.client.controlQueue rfl ?_
      intro hclosed
      exact absurd (hrun.symm.trans (h.ended (.inr hclosed))) (by decide)
  | turn heartbeatDue w event turns eq =>
    subst event eq
    refine ⟨h.counted, ?_, ?_, fun hp => (h.leaving hp).turn hp hq turns⟩
    · cases turns <;> exact h.stopped
    · cases turns with
      | leave _ hrun => exact fun _ => hrun
      | close hphase _ => exact fun _ => h.ended (.inl hphase)
      | sendControl => exact h.ended
      | sendOutbound => exact h.ended
      | _ => exact fun hend => by simp [workerDoes] at hend
  | stopWorker destroyed eq =>
    subst eq
    have hp := h.counted.unpublished_of_destroyed destroyed
    refine ⟨h.counted, fun _ => hp, fun _ => rfl, fun _ => ?_⟩
    cases h.leaving hp with
    | queued before queue hopen => exact .queued before queue hopen
    | sent last control outbound => exact .sent last control outbound
  | broker keeps lifetime phase _ =>
    refine ⟨lifetime ▸ h.counted, ?_, ?_, ?_⟩
    · rw [keeps.workerRunning, lifetime]
      exact h.stopped
    · rw [keeps.workerRunning, phase]
      exact h.ended
    · rw [lifetime]
      exact fun hp => (h.leaving hp).keeps keeps (.inl phase)

theorem Initial.closing (h : s.Initial pb) : s.Closing := by
  obtain ⟨clientId, b, rfl, -⟩ := h
  exact ⟨SharedInstance.counted_initial, by simp, by simp, by simp⟩

/-- What the broker has not taken is at the end of what was sent, and a client whose last message
was a DISCONNECT is gone. -/
structure Upstream (pb : Protobuf) (s : Session ω κ) : Prop where
  broker : s.broker.WellFormed
  channel : ∃ taken, s.wire.map (sentGroup pb s.client.clientId) = taken ++ s.up
  gone : s.up = [] → s.wire.getLast? = some (.message s.byeMsg) →
    s.client.clientId ∉ s.broker.clients

theorem turns_wire {w w' : ZmqWorker Envelope} {heartbeatDue : Bool}
    (h : w.Turns heartbeatDue true w') : ∃ new, w'.wire = w.wire ++ new := by
  cases h with
  | sendControl => exact ⟨_, rfl⟩
  | sendOutbound => exact ⟨_, rfl⟩
  | heartbeat => exact ⟨_, rfl⟩
  | _ => exact ⟨[], (List.append_nil _).symm⟩

theorem Upstream.congr (h : s.Upstream pb) (hid : s'.client.clientId = s.client.clientId)
    (hwire : s'.wire = s.wire) (hup : s'.up = s.up) (hb : s'.broker = s.broker) :
    s'.Upstream pb where
  broker := hb ▸ h.broker
  channel := by
    rw [hwire, hid, hup]
    exact h.channel
  gone := by
    rw [hwire, hid, hup, hb, byeMsg_congr hid]
    exact h.gone

theorem Upstream.turn (h : s.Upstream pb) {heartbeatDue : Bool} {w : ZmqWorker Envelope}
    (ht : s.worker.Turns heartbeatDue true w) : (s.workerDoes pb w).Upstream pb := by
  obtain ⟨new, hnew⟩ := turns_wire ht
  replace hnew : w.wire = s.wire ++ new := hnew
  have hup : (s.workerDoes pb w).up = s.up ++ new.map (sentGroup pb s.client.clientId) := by
    simp [workerDoes, hnew]
  refine ⟨h.broker, ?_, ?_⟩
  · obtain ⟨taken, htaken⟩ := h.channel
    refine ⟨taken, ?_⟩
    rw [hup, ← List.append_assoc, ← htaken, ← List.map_append, ← hnew]
    rfl
  · -- the broker can have taken everything only if this step sent nothing
    intro hempty hlast
    rw [hup, List.append_eq_nil_iff, List.map_eq_nil_iff] at hempty
    obtain ⟨hempty, rfl⟩ := hempty
    rw [List.append_nil] at hnew
    apply h.gone hempty
    rw [← hnew]
    exact hlast

/-- The broker takes the client's next message. When it is the last of all and a DISCONNECT, the
client's entry goes. -/
theorem Upstream.takes (h : s.Upstream pb) (hk : Keeps s s') {group : Wire.Group}
    (hup : s.up = group :: s'.up) (htakes : Takes pb s group s'.broker) : s'.Upstream pb := by
  obtain ⟨taken, htaken⟩ := h.channel
  refine ⟨?_, ?_, ?_⟩
  · generalize s'.broker = b at htakes
    cases htakes with
    | undecoded => exact h.broker
    | @processed env fresh now =>
      exact h.broker.step (.fromRouter fresh now env s.client.clientId)
  · refine ⟨taken ++ [group], ?_⟩
    rw [hk.wire, hk.clientId, htaken, hup]
    simp
  · rw [hk.wire, byeMsg_congr hk.clientId, hk.clientId]
    intro hempty hlast
    have hgroup : group = Wire.send pb s.byeMsg := by
      have hl := congrArg List.getLast? htaken
      rw [List.getLast?_map, hlast, hup, hempty, List.getLast?_concat] at hl
      exact (Option.some.inj hl).symm
    have hrecv : Wire.recv pb group = some s.byeMsg := by rw [hgroup, Wire.recv_send]
    generalize s'.broker = b at htakes
    cases htakes with
    | undecoded hnone => exact absurd (hnone.symm.trans hrecv) (by simp)
    | processed fresh now hsome =>
      obtain rfl := Option.some.inj (hsome.symm.trans hrecv)
      have hkey : s.byeMsg.key = Keys.disconnect := rfl
      rw [Broker.mem_clients_processFromRouter, if_pos hkey]
      exact fun hmem => hmem.2 rfl

theorem Upstream.step (h : s.Upstream pb) (hstep : Step pb s e s') : s'.Upstream pb := by
  cases step_moves hstep with
  | inside keeps _ _ up broker => exact h.congr keeps.clientId keeps.wire up broker
  | write control outbound client _ same =>
    exact h.congr client.1 same.2.2.2.1 same.2.2.2.2.1 same.2.2.2.2.2
  | shutdown id _ _ eq =>
    rw [eq]
    split_ifs
    · exact h.congr rfl rfl rfl rfl
    · exact h.congr rfl rfl rfl rfl
  | turn heartbeatDue w _ turns eq =>
    rw [eq]
    exact h.turn turns
  | stopWorker _ eq =>
    rw [eq]
    exact h.congr rfl rfl rfl rfl
  | broker keeps _ _ takes =>
    rcases takes with ⟨group, hup, htakes⟩ | ⟨hup, hb⟩ | ⟨hup, x, hx, hb⟩
    · exact h.takes keeps hup htakes
    · refine ⟨hb ▸ h.broker.removeClient _, ?_, ?_⟩
      · rw [keeps.wire, keeps.clientId, hup]
        exact h.channel
      · intro _ _
        rw [hb, keeps.clientId, Broker.mem_clients_removeClient]
        exact fun hmem => hmem.2 rfl
    · refine ⟨hb ▸ h.broker.step x, ?_, ?_⟩
      · rw [keeps.wire, keeps.clientId, hup]
        exact h.channel
      · rw [keeps.wire, keeps.clientId, byeMsg_congr keeps.clientId, hup, hb]
        -- other clients, peers and sweeps never bring the client back
        intro hempty hlast hmem
        have hgone := h.gone hempty hlast
        rcases @Broker.step_of_others ω pb s.broker h.broker x _ hx with ⟨hc, -⟩ | ⟨-, hc, -⟩
        · exact hgone (hc.mp hmem)
        · exact hc hmem

theorem Initial.upstream (h : s.Initial pb) : s.Upstream pb := by
  obtain ⟨clientId, b, rfl, hb⟩ := h
  exact ⟨hb.wellFormed, ⟨[], rfl⟩, by simp⟩

/-- In every run whose steps are all `Quiet`, the DISCONNECT is the last message on the wire when
the socket is closed, and the client is gone once the broker has taken everything. -/
theorem no_ghost_client (hr : Reachable (Initial pb) (guarded Quiet (Step pb)) s)
    (hclosed : s.phase = .closed) :
    s.wire.getLast? = some (.message s.byeMsg) ∧
    (s.up = [] → s.client.clientId ∉ s.broker.clients ∧
      ∀ t, ¬ s.broker.Subscribed s.client.clientId t) := by
  have hinv : s.Closing ∧ s.Upstream pb := by
    apply hr.invariant (P := fun s => s.Closing ∧ s.Upstream pb)
    · exact fun _ hi => ⟨hi.closing, hi.upstream⟩
    · exact fun _ _ _ h hs => ⟨h.1.step hs, h.2.step hs.2⟩
  obtain ⟨hclosing, hup⟩ := hinv
  have hpub := hclosing.stopped (hclosing.ended (.inr hclosed))
  have hlast : s.wire.getLast? = some (.message s.byeMsg) := by
    cases hclosing.leaving hpub with
    | queued _ _ hopen => exact absurd hclosed hopen
    | sent last _ _ => exact last
  refine ⟨hlast, ?_⟩
  intro hempty
  have hgone := hup.gone hempty hlast
  exact ⟨hgone, fun t ht => hgone (hup.broker.known_of_subscribed ht)⟩

def constructed : Session Unit Unit :=
  { client := { clientId := "client-a" }, broker := { brokerId := "broker-1" } }

theorem constructed_initial : constructed.Initial BrokerProto.proto3 :=
  ⟨"client-a", _, rfl, ⟨_, [], ⟨"broker-1", 0, rfl⟩, .nil _⟩⟩

def quietUuid : Uuid := ⟨"00000000-0000-4000-8000-000000000009", by decide⟩

def idleTurn (heartbeatDue : Bool) : List (Event Unit Unit) :=
  [.turn false, .turn false, .turn false, .turn false, .turn heartbeatDue]

/-- The first heartbeat is answered with RESET, and the client comes online. -/
def connecting : List (Event Unit Unit) :=
  idleTurn true ++ [.brokerTakes quietUuid 0, .turn false, .receive, .announce, .turn false,
    .turn false, .turn false, .turn false, .brokerTakes quietUuid 0, .popInbound, .resubscribeAll]

def sendNews : List (Event Unit Unit) :=
  [.lifetime (.getInstance (.other 0)), .send (constructed.client.dataEnvelope "news" [7]),
    .lifetime (.release (.other 0))]

/-- A turn sends the message; then `shutdown` returns and the destructor stops the worker before it
begins another one. -/
def leavingQuietly : List (Event Unit Unit) :=
  sendNews ++ [.turn false, .turn false, .turn false, .turn false, .turn false, .turn false,
    .lifetime (.shutdown 0), .lifetime .dropTmp, .lifetime .exitLoop, .stopWorker, .turn false,
    .turn false, .turn false, .brokerTakes quietUuid 0, .brokerTakes quietUuid 0]

def left : Session Unit Unit :=
  (exec (step BrokerProto.proto3) constructed (connecting ++ leavingQuietly)).get
    (by decide +kernel)

theorem no_ghost_client_quiet : left.wire.getLast? = some (.message left.byeMsg) ∧
    left.client.clientId ∉ left.broker.clients := by
  have he :
      exec (step BrokerProto.proto3) constructed (connecting ++ leavingQuietly) = some left := by
    simp [left]
  have hr : Run (guarded Quiet (Step BrokerProto.proto3)) constructed _ left :=
    exec_guarded (by decide +kernel) he
  have hend : left.phase = .closed ∧ left.up = [] := by decide +kernel
  have h := no_ghost_client ⟨constructed, _, constructed_initial, hr⟩ hend.1
  exact ⟨h.1, (h.2 hend.2).1⟩

/-- A message accepted just before `shutdown` waits in the outbound queue. The next turn sends the
DISCONNECT from the control queue, and then the message. -/
def leavingWithData : List (Event Unit Unit) :=
  sendNews ++ [.lifetime (.shutdown 0), .turn false, .turn false, .turn false, .turn false,
    .turn false, .turn false, .turn false, .lifetime .dropTmp, .lifetime .exitLoop, .stopWorker,
    .turn false, .turn false, .brokerTakes quietUuid 0, .brokerTakes quietUuid 0]

def ghost : Session Unit Unit :=
  (exec (step BrokerProto.proto3) constructed (connecting ++ leavingWithData)).get
    (by decide +kernel)

theorem ghost_client_reachable : ∃ s : Session Unit Unit,
    Reachable (Initial BrokerProto.proto3) (Step BrokerProto.proto3) s ∧ s.client.connected = true ∧
    s.phase = .closed ∧ s.up = [] ∧ .message s.byeMsg ∈ s.wire ∧
    s.wire.getLast? ≠ some (.message s.byeMsg) ∧ s.client.clientId ∈ s.broker.clients := by
  have he : exec (step BrokerProto.proto3) constructed (connecting ++ leavingWithData) =
      some ghost := by
    simp [ghost]
  have hr : Run (Step BrokerProto.proto3) constructed _ ghost := exec_run he
  exact ⟨ghost, ⟨constructed, _, constructed_initial, hr⟩, by decide +kernel⟩

end Session

end ZmqPubSub
