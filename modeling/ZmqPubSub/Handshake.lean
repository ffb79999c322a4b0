import ZmqPubSub.BrokerClients
import ZmqPubSub.ConnectionManager

/-!
One client and its broker over lossless FIFO channels, with every other input of the broker. For
one topic the whole system comes down to five facts (`View`), and each step makes one of six moves
on them; the two directions of agreement between client and broker are read off the moves.
-/

namespace ZmqPubSub

open TransitionSystem

structure Handshake (ω κ : Type*) where
  client : ConnectionManager κ
  /-- From the worker's socket to the broker. -/
  up : List Wire.Group := []
  /-- From the broker to the worker's socket. -/
  down : List Wire.Group := []
  /-- The processing thread has popped a RESET and not yet called `resubscribeAll`. -/
  resetting : Bool := false
  broker : Broker ω

namespace Handshake

variable {ω κ : Type*}

inductive Event (ω κ : Type*)
  | register (key : String) (callback : κ) (owner : ℕ)
  | unregister (key : String) (owner : ℕ)
  /-- Any API call that ends in `sendRawEnvelope` with a data key. -/
  | send (env : Envelope)
  | receive
  | serverTimeout
  | sendControl
  | sendOutbound
  | sendHeartbeat
  /-- One turn of `processingLoop`; what a callback does is another event. -/
  | popInbound
  | resubscribe
  | brokerTakes (fresh : Uuid) (now : Time)
  | brokerTimesOut
  /-- An input of the broker that is not this client's. -/
  | brokerStep (e : Broker.Event ω)

variable (pb : Protobuf) (s : Handshake ω κ)

def delivered (clientId : String) (effects : List (Effect ω)) : List Wire.Group :=
  ((Effect.clientSends effects).filter fun x => x.1 == clientId).map fun x =>
    Wire.sendFrames x.2.1 x.2.2

/-- The broker after a call, with what it sent to the client on its way down. -/
def brokerDoes (r : Broker ω × List (Effect ω)) : Handshake ω κ :=
  { s with broker := r.1, down := s.down ++ delivered s.client.clientId r.2 }

def step : Event ω κ → Option (Handshake ω κ)
  | .register key callback owner =>
    some { s with client := s.client.performRegistration key callback owner }
  | .unregister key owner => some { s with client := s.client.performUnregistration key owner }
  | .send env =>
    if Keys.isControlMessage env.key then none
    else some { s with client := s.client.sendRawEnvelope env }
  | .receive =>
    match s.down with
    | [] => none
    | group :: down =>
      match Wire.recv pb group with
      | none => some { s with down := down }
      | some inbound => some { s with down := down, client := s.client.receive inbound }
  | .serverTimeout =>
    if s.client.isOnline then some { s with client := s.client.serverTimeout } else none
  | .sendControl =>
    match s.client.controlQueue with
    | [] => none
    | env :: rest => some { s with
        client := { s.client with controlQueue := rest }, up := s.up ++ [Wire.send pb env] }
  | .sendOutbound =>
    match s.client.outboundQueue with
    | [] => none
    | env :: rest => some { s with
        client := { s.client with outboundQueue := rest }, up := s.up ++ [Wire.send pb env] }
  | .sendHeartbeat =>
    some { s with up := s.up ++ [Wire.send pb (heartbeatEnvelope s.client.clientId)] }
  | .popInbound =>
    if s.resetting then none
    else match s.client.inboundQueue with
    | [] => none
    | env :: rest => some { s with
        client := { s.client with inboundQueue := rest }, resetting := env.key == Keys.reset }
  | .resubscribe =>
    if s.resetting then some { s with client := s.client.resubscribeAll, resetting := false }
    else none
  | .brokerTakes fresh now =>
    match s.up with
    | [] => none
    | group :: up =>
      match Wire.recv pb group with
      | none => some { s with up := up }
      | some env => some (brokerDoes { s with up := up }
          (s.broker.processFromRouter pb fresh now env s.client.clientId))
  | .brokerTimesOut => some { s with broker := s.broker.removeClient s.client.clientId }
  | .brokerStep e =>
    if e.sender = some s.client.clientId then none else some (s.brokerDoes (s.broker.step pb e))

/-- A client just constructed, and a broker that has been running but has not met it. -/
def Initial : Prop :=
  ∃ clientId, s.client = { clientId := clientId } ∧ s.up = [] ∧ s.down = [] ∧
    s.resetting = false ∧ Broker.Reachable pb s.broker ∧ clientId ∉ s.broker.clients

/-- Both channels and all queues are empty and no RESET is being handled. -/
def Quiescent : Prop :=
  s.up = [] ∧ s.down = [] ∧ s.client.controlQueue = [] ∧ s.client.outboundQueue = [] ∧
    s.client.inboundQueue = [] ∧ s.resetting = false

instance : Decidable s.Quiescent := inferInstanceAs (Decidable (_ ∧ _))

/-- Whether a known client holds `t` once the broker has handled `msgs`. -/
def Settles (t : String) (held : Prop) (msgs : List Envelope) : Prop :=
  msgs.foldl (fun held env => Broker.HoldsAfter env t held) held

def pending : List Envelope := s.up.filterMap (Wire.recv pb) ++ s.client.controlQueue

/-- A RESET is on its way to the client or being handled. -/
def ResetPending : Prop :=
  s.resetting = true ∨
    ∃ env ∈ s.down.filterMap (Wire.recv pb) ++ s.client.inboundQueue, env.key = Keys.reset

/-- What matters about one topic. -/
structure View where
  /-- It has a callback. -/
  wanted : Prop
  connected : Prop
  reset : Prop
  /-- The broker has the client in `m_clients`. -/
  known : Prop
  /-- The client will hold it when everything on its way has arrived. -/
  will : Prop

def view (t : String) : View where
  wanted := t ∈ s.client.msgHandlers
  connected := s.client.connected = true
  reset := s.ResetPending pb
  known := s.client.clientId ∈ s.broker.clients
  will := Settles t (s.broker.Subscribed s.client.clientId t) (s.pending pb)

/-- What the event `e` can do to the topic `t`. -/
inductive Move (e : Event ω κ) (t : String) (v v' : View) : Prop
  | idle (wanted : v'.wanted ↔ v.wanted) (connected : v'.connected → v.connected)
      (reset : v.reset → v'.reset) (known : v'.known ↔ v.known) (will : v'.will ↔ v.will)
  | announce (wanted : v'.wanted ↔ v.wanted) (will : v'.will ↔ v.wanted ∨ v.will)
  | register (wanted : v'.wanted) (connected : v'.connected ↔ v.connected)
      (will : v'.will ↔ v.connected ∨ v.will)
  | unregister (owner : ℕ) (event : e = .unregister t owner) (wanted : ¬ v'.wanted)
      (will : v'.will ↔ v.will ∧ ¬ v.connected)
  | forget (wanted : v'.wanted ↔ v.wanted) (known : ¬ v'.known) (will : v'.will → v.will)
  | meet (wanted : v'.wanted ↔ v.wanted) (reset : v'.reset) (will : v'.will → v.will)

theorem settles_append (t : String) (held : Prop) (xs ys : List Envelope) :
    Settles t held (xs ++ ys) ↔ Settles t (Settles t held xs) ys := by
  rw [Settles, List.foldl_append]
  rfl

theorem Settles.mono {t : String} {held held' : Prop} (h : held → held') {msgs : List Envelope}
    (hs : Settles t held msgs) : Settles t held' msgs := by
  induction msgs generalizing held held' with
  | nil => exact h hs
  | cons env msgs ih => exact ih (Or.imp_right (And.imp_left h)) hs

theorem settles_congr {t : String} {held held' : Prop} (h : held ↔ held') (msgs : List Envelope) :
    Settles t held msgs ↔ Settles t held' msgs :=
  ⟨Settles.mono h.mp, Settles.mono h.mpr⟩

theorem holdsAfter_of_ne {env : Envelope} (hs : env.key ≠ Keys.subscribe)
    (hu : env.key ≠ Keys.unsubscribe) (t : String) (held : Prop) :
    Broker.HoldsAfter env t held ↔ held := by
  simp [Broker.HoldsAfter, hs, hu]

theorem settles_insert {env : Envelope} (hs : env.key ≠ Keys.subscribe)
    (hu : env.key ≠ Keys.unsubscribe) (t : String) (held : Prop) (xs ys : List Envelope) :
    Settles t held (xs ++ env :: ys) ↔ Settles t held (xs ++ ys) := by
  rw [settles_append, settles_append]
  exact settles_congr (holdsAfter_of_ne hs hu t _) ys

theorem settles_subscribes (t : String) (held : Prop) (clientId : String) (ts : List String) :
    Settles t held (ts.map (createControlEnvelope Keys.subscribe clientId)) ↔ t ∈ ts ∨ held := by
  have hne : Keys.subscribe ≠ Keys.unsubscribe := by decide
  induction ts generalizing held with
  | nil => simp [Settles]
  | cons t' ts ih =>
    have ha : Broker.HoldsAfter (createControlEnvelope Keys.subscribe clientId t') t held ↔
        t = t' ∨ held := by
      simp [Broker.HoldsAfter, createControlEnvelope, Envelope.key, hne]
    rw [List.mem_cons]
    exact (ih _).trans ((or_congr_right ha).trans (by tauto))

theorem settles_unsubscribe (t : String) (held : Prop) (clientId t' : String) :
    Settles t held [createControlEnvelope Keys.unsubscribe clientId t'] ↔ held ∧ t ≠ t' := by
  have hne : Keys.unsubscribe ≠ Keys.subscribe := by decide
  simp [Settles, Broker.HoldsAfter, createControlEnvelope, Envelope.key, hne]

theorem not_subscription_of_data {env : Envelope} (h : Keys.isControlMessage env.key = false) :
    env.key ≠ Keys.subscribe ∧ env.key ≠ Keys.unsubscribe := by
  simp only [Keys.isControlMessage, Bool.or_eq_false_iff, beq_eq_false_iff_ne] at h
  exact ⟨h.1.1.1.1.2, h.1.1.1.2⟩

variable {pb : Protobuf} {s s' : Handshake ω κ} {e : Event ω κ}

/-- The broker is well formed, and the outbound queue holds data messages only. -/
structure Sound (s : Handshake ω κ) : Prop where
  broker : s.broker.WellFormed
  outbound : ∀ env ∈ s.client.outboundQueue, Keys.isControlMessage env.key = false

theorem resetPending_delivered {effects : List (Effect ω)} {b : Broker ω}
    (h : .sendToClient s.client.clientId (Wire.encodeHeader pb Broker.resetMsg) [] ∈ effects) :
    (s.brokerDoes (b, effects)).ResetPending pb := by
  refine Or.inr ⟨⟨Broker.resetMsg, []⟩, List.mem_append_left _ ?_, rfl⟩
  refine List.mem_filterMap.mpr
    ⟨Wire.sendFrames (Wire.encodeHeader pb Broker.resetMsg) [], List.mem_append_right _ ?_,
      Wire.recv_sendFrames pb Broker.resetMsg []⟩
  refine List.mem_map.mpr ⟨_, List.mem_filter.mpr ⟨Effect.mem_clientSends.mpr h, ?_⟩, rfl⟩
  exact beq_self_eq_true _

theorem ResetPending.brokerDoes (h : s.ResetPending pb) (r : Broker ω × List (Effect ω)) :
    (s.brokerDoes r).ResetPending pb := by
  refine h.imp id ?_
  rintro ⟨env, henv, hk⟩
  refine ⟨env, ?_, hk⟩
  simp only [Handshake.brokerDoes, List.filterMap_append, List.mem_append] at henv ⊢
  tauto

theorem move_register (key : String) (callback : κ) (owner : ℕ) (t : String) :
    Move e t (s.view pb t)
      (view pb { s with client := s.client.performRegistration key callback owner } t) := by
  rw [ConnectionManager.performRegistration_eq]
  have hsub : ∀ held : Prop, Settles t held
      (if s.client.connected then [createControlEnvelope Keys.subscribe s.client.clientId key]
        else []) ↔ (s.client.connected = true ∧ t = key) ∨ held := by
    intro held
    split_ifs with hc
    · have h := settles_subscribes t held s.client.clientId [key]
      simpa [hc] using h
    · simp [Settles, hc]
  have hw : Settles t (s.broker.Subscribed s.client.clientId t)
      (s.up.filterMap (Wire.recv pb) ++ (s.client.controlQueue ++
        if s.client.connected then [createControlEnvelope Keys.subscribe s.client.clientId key]
        else [])) ↔ (s.client.connected = true ∧ t = key) ∨ (s.view pb t).will := by
    rw [← List.append_assoc, settles_append]
    exact hsub _
  by_cases ht : t = key
  · refine .register ?_ Iff.rfl (hw.trans ?_)
    · exact (AList.mem_insert _).mpr (Or.inl ht)
    · simp [ht, view]
  · refine .idle ?_ id id Iff.rfl (hw.trans ?_)
    · exact (AList.mem_insert _).trans (or_iff_right ht)
    · simp [ht]

theorem move_unregister (key : String) (owner : ℕ) (t : String) :
    Move (.unregister key owner : Event ω κ) t (s.view pb t)
      (view pb { s with client := s.client.performUnregistration key owner } t) := by
  rcases s.client.performUnregistration_cases key owner with ⟨handlers, he, hh⟩ | ⟨-, he⟩
  · rw [he]
    exact .idle (hh t) id id Iff.rfl Iff.rfl
  rw [he]
  have hunsub : ∀ held : Prop, Settles t held
      (if s.client.connected then [createControlEnvelope Keys.unsubscribe s.client.clientId key]
        else []) ↔ held ∧ ¬ (s.client.connected = true ∧ t = key) := by
    intro held
    split_ifs with hc
    · simp [settles_unsubscribe, hc]
    · simp [Settles, hc]
  have hw : Settles t (s.broker.Subscribed s.client.clientId t)
      (s.up.filterMap (Wire.recv pb) ++ (s.client.controlQueue ++
        if s.client.connected then [createControlEnvelope Keys.unsubscribe s.client.clientId key]
        else [])) ↔ (s.view pb t).will ∧ ¬ (s.client.connected = true ∧ t = key) := by
    rw [← List.append_assoc, settles_append]
    exact hunsub _
  by_cases ht : t = key
  · subst ht
    refine .unregister owner rfl ?_ (hw.trans ?_)
    · exact fun hm => (AList.mem_erase.mp hm).1 rfl
    · simp [view]
  · refine .idle ?_ id id Iff.rfl (hw.trans ?_)
    · exact AList.mem_erase.trans (and_iff_right ht)
    · simp [ht]

/-- Sending a SUBSCRIBE for every handler, after messages that are no subscription requests. -/
theorem settles_announce (pb : Protobuf) (s : Handshake ω κ) (t : String) {extra : List Envelope}
    (hextra : ∀ held : Prop, Settles t held extra ↔ held) :
    Settles t (s.broker.Subscribed s.client.clientId t)
      (s.up.filterMap (Wire.recv pb) ++ (s.client.controlQueue ++ (extra ++
        s.client.topics.map (createControlEnvelope Keys.subscribe s.client.clientId)))) ↔
      (s.view pb t).wanted ∨ (s.view pb t).will := by
  rw [← List.append_assoc, ← List.append_assoc, settles_append, settles_subscribes,
    ConnectionManager.mem_topics, settles_append]
  exact or_congr_right (hextra _)

theorem move_resubscribe (t : String) : Move e t (s.view pb t)
    (view pb { s with client := s.client.resubscribeAll, resetting := false } t) := by
  rw [ConnectionManager.resubscribeAll, ConnectionManager.sendSubscriptions_eq]
  refine .announce Iff.rfl ?_
  have hnil : ∀ held : Prop, Settles t held [] ↔ held := fun _ => Iff.rfl
  exact settles_announce pb s t hnil

theorem move_receive_none {group : Wire.Group} {down : List Wire.Group}
    (hd : s.down = group :: down)
    (hg : Wire.recv pb group = none) (t : String) :
    Move e t (s.view pb t) (view pb { s with down := down } t) := by
  refine .idle Iff.rfl id ?_ Iff.rfl Iff.rfl
  intro h
  change s.ResetPending pb at h
  rw [ResetPending, hd, List.filterMap_cons_none hg] at h
  exact h

theorem move_receive {group : Wire.Group} {down : List Wire.Group} {inbound : Envelope}
    (hd : s.down = group :: down) (hg : Wire.recv pb group = some inbound) (t : String) :
    Move e t (s.view pb t)
      (view pb { s with down := down, client := s.client.receive inbound } t) := by
  by_cases ho : s.client.isOnline = true
  · -- the message only moves from the channel to the inbound queue
    have hc : s.client.receive inbound =
        if inbound.key = Keys.heartbeatAck then s.client
        else { s.client with inboundQueue := s.client.inboundQueue ++ [inbound] } := by
      simp [ConnectionManager.receive, ho]
    have hne : Keys.reset ≠ Keys.heartbeatAck := by decide
    rw [hc]
    split_ifs with hk
    · refine .idle Iff.rfl id ?_ Iff.rfl Iff.rfl
      refine Or.imp id ?_
      rintro ⟨env, henv, hr⟩
      rw [hd, List.filterMap_cons_some hg, List.cons_append, List.mem_cons] at henv
      rcases henv with rfl | henv
      · exact absurd (hr.symm.trans hk) hne
      · exact ⟨env, henv, hr⟩
    · refine .idle Iff.rfl id ?_ Iff.rfl Iff.rfl
      refine Or.imp id ?_
      rintro ⟨env, henv, hr⟩
      rw [hd, List.filterMap_cons_some hg, List.cons_append, List.mem_cons] at henv
      refine ⟨env, ?_, hr⟩
      simp only [List.mem_append, List.mem_singleton] at henv ⊢
      tauto
  · -- coming online announces every topic
    have hne : Keys.connect ≠ Keys.subscribe ∧ Keys.connect ≠ Keys.unsubscribe := by decide
    have hconnect : ∀ held : Prop, Settles t held
        [createControlEnvelope Keys.connect s.client.clientId ""] ↔ held := by
      intro held
      apply holdsAfter_of_ne
      · exact hne.1
      · exact hne.2
    have hw := settles_announce pb s t hconnect
    have ho' : s.client.isOnline = false := by simpa using ho
    unfold ConnectionManager.receive
    rw [ho', ConnectionManager.statusHandler_true]
    simp only [Bool.false_eq_true, if_false]
    split_ifs
    · exact .announce Iff.rfl hw
    · exact .announce Iff.rfl hw

theorem move_brokerTakes (h : s.Sound) {group : Wire.Group} {up : List Wire.Group} {env : Envelope}
    (hu : s.up = group :: up) (hg : Wire.recv pb group = some env) (fresh : Uuid) (now : Time)
    (t : String) : Move e t (s.view pb t) (view pb (brokerDoes { s with up := up }
      (s.broker.processFromRouter pb fresh now env s.client.clientId)) t) := by
  have hp : s.pending pb = env :: pending pb { s with up := up } := by
    simp [pending, hu, List.filterMap_cons_some hg]
  have hwill : (s.view pb t).will ↔ Settles t (Broker.HoldsAfter env t
      (s.broker.Subscribed s.client.clientId t)) (pending pb { s with up := up }) := by
    change Settles t _ (s.pending pb) ↔ _
    rw [hp]
    rfl
  rcases @Broker.processFromRouter_own ω pb s.broker h.broker fresh now env s.client.clientId with
    ⟨-, hk, hs⟩ | ⟨hk, hs, hr⟩ | ⟨hk, hk', hs⟩
  · refine .forget Iff.rfl hk fun hw => hwill.mpr ?_
    exact Settles.mono (fun hx => absurd hx (hs t)) hw
  · -- the message itself is lost, but nothing was held and a RESET is on its way
    refine .meet Iff.rfl (resetPending_delivered (s := { s with up := up }) hr)
      fun hw => hwill.mpr ?_
    refine Settles.mono (fun hx => ?_) hw
    exact absurd (h.broker.known_of_subscribed ((hs t).mp hx)) hk
  · refine .idle Iff.rfl id ?_ (iff_of_true hk' hk) ((settles_congr (hs t) _).trans hwill.symm)
    exact fun hx => ResetPending.brokerDoes (s := { s with up := up }) hx _

theorem move_broker {r : Broker ω × List (Effect ω)}
    (h : ((s.client.clientId ∈ r.1.clients ↔ s.client.clientId ∈ s.broker.clients) ∧
        ∀ t, r.1.Subscribed s.client.clientId t ↔ s.broker.Subscribed s.client.clientId t) ∨
      (s.client.clientId ∉ r.1.clients ∧ ∀ t, ¬ r.1.Subscribed s.client.clientId t)) (t : String) :
    Move e t (s.view pb t) (view pb (s.brokerDoes r) t) := by
  rcases h with ⟨hk, hs⟩ | ⟨hk, hs⟩
  · exact .idle Iff.rfl id (fun hx => ResetPending.brokerDoes hx r) hk (settles_congr (hs t) _)
  · exact .forget Iff.rfl hk (Settles.mono fun hx => absurd hx (hs t))

theorem move_brokerTimesOut (h : s.Sound) (t : String) : Move e t (s.view pb t)
    (view pb { s with broker := s.broker.removeClient s.client.clientId } t) := by
  refine .forget Iff.rfl ?_ (Settles.mono fun hx => ?_)
  · exact fun hx => ((Broker.mem_clients_removeClient _ _).mp hx).2 rfl
  · exact ((Broker.subscribed_removeClient h.broker _ _ t).mp hx).1

theorem move_sendControl {env : Envelope} {rest : List Envelope}
    (hq : s.client.controlQueue = env :: rest) (t : String) : Move e t (s.view pb t)
    (view pb { s with client := { s.client with controlQueue := rest },
                      up := s.up ++ [Wire.send pb env] } t) := by
  refine .idle Iff.rfl id id Iff.rfl ?_
  simp [view, pending, hq]

theorem move_sendOther {env : Envelope} {rest : List Envelope} (hs : env.key ≠ Keys.subscribe)
    (hu : env.key ≠ Keys.unsubscribe) (t : String) : Move e t (s.view pb t)
    (view pb { s with client := { s.client with outboundQueue := rest },
                      up := s.up ++ [Wire.send pb env] } t) := by
  refine .idle Iff.rfl id id Iff.rfl ?_
  simp only [view, pending, List.filterMap_append, List.filterMap_cons_some (Wire.recv_send pb env),
    List.filterMap_nil, List.append_assoc, List.singleton_append]
  exact settles_insert hs hu t _ _ _

theorem move_popInbound {env : Envelope} {rest : List Envelope} (hr : s.resetting = false)
    (hq : s.client.inboundQueue = env :: rest) (t : String) : Move e t (s.view pb t)
    (view pb { s with client := { s.client with inboundQueue := rest },
                      resetting := env.key == Keys.reset } t) := by
  refine .idle Iff.rfl id ?_ Iff.rfl Iff.rfl
  rintro (hx | ⟨e, he, hk⟩)
  · exact absurd (hr.symm.trans hx) Bool.false_ne_true
  · rw [hq, List.mem_append, List.mem_cons] at he
    rcases he with he | rfl | he
    · exact Or.inr ⟨e, List.mem_append_left _ he, hk⟩
    · exact Or.inl (beq_iff_eq.mpr hk)
    · exact Or.inr ⟨e, List.mem_append_right _ he, hk⟩

/-- What one event can do. -/
inductive Fires (pb : Protobuf) (s : Handshake ω κ) : Event ω κ → Handshake ω κ → Prop
  | register (key : String) (callback : κ) (owner : ℕ) : Fires pb s (.register key callback owner)
      { s with client := s.client.performRegistration key callback owner }
  | unregister (key : String) (owner : ℕ) : Fires pb s (.unregister key owner)
      { s with client := s.client.performUnregistration key owner }
  | send {env : Envelope} : Keys.isControlMessage env.key = false →
      Fires pb s (.send env) { s with client := s.client.sendRawEnvelope env }
  | receiveNone {group : Wire.Group} {down : List Wire.Group} : s.down = group :: down →
      Wire.recv pb group = none → Fires pb s .receive { s with down := down }
  | receive {group : Wire.Group} {down : List Wire.Group} {inbound : Envelope} :
      s.down = group :: down → Wire.recv pb group = some inbound →
      Fires pb s .receive { s with down := down, client := s.client.receive inbound }
  | serverTimeout : s.client.isOnline = true →
      Fires pb s .serverTimeout { s with client := s.client.serverTimeout }
  | sendControl {env : Envelope} {rest : List Envelope} : s.client.controlQueue = env :: rest →
      Fires pb s .sendControl { s with
        client := { s.client with controlQueue := rest }, up := s.up ++ [Wire.send pb env] }
  | sendOutbound {env : Envelope} {rest : List Envelope} : s.client.outboundQueue = env :: rest →
      Fires pb s .sendOutbound { s with
        client := { s.client with outboundQueue := rest }, up := s.up ++ [Wire.send pb env] }
  | sendHeartbeat : Fires pb s .sendHeartbeat
      { s with up := s.up ++ [Wire.send pb (heartbeatEnvelope s.client.clientId)] }
  | popInbound {env : Envelope} {rest : List Envelope} : s.resetting = false →
      s.client.inboundQueue = env :: rest →
      Fires pb s .popInbound { s with
        client := { s.client with inboundQueue := rest }, resetting := env.key == Keys.reset }
  | resubscribe : s.resetting = true →
      Fires pb s .resubscribe { s with client := s.client.resubscribeAll, resetting := false }
  | takesNone {group : Wire.Group} {up : List Wire.Group} (fresh : Uuid) (now : Time) :
      s.up = group :: up → Wire.recv pb group = none →
      Fires pb s (.brokerTakes fresh now) { s with up := up }
  | takes {group : Wire.Group} {up : List Wire.Group} {env : Envelope} (fresh : Uuid) (now : Time) :
      s.up = group :: up → Wire.recv pb group = some env →
      Fires pb s (.brokerTakes fresh now) (brokerDoes { s with up := up }
        (s.broker.processFromRouter pb fresh now env s.client.clientId))
  | brokerTimesOut : Fires pb s .brokerTimesOut
      { s with broker := s.broker.removeClient s.client.clientId }
  | brokerStep {e : Broker.Event ω} : e.sender ≠ some s.client.clientId →
      Fires pb s (.brokerStep e) (s.brokerDoes (s.broker.step pb e))

theorem step_fires (he : s.step pb e = some s') : Fires pb s e s' := by
  cases e with
  | register key callback owner =>
    cases he
    exact .register key callback owner
  | unregister key owner =>
    cases he
    exact .unregister key owner
  | send env =>
    simp only [step] at he
    split_ifs at he with hk
    cases he
    exact .send (by simpa using hk)
  | receive =>
    simp only [step] at he
    split at he
    · cases he
    · next hd =>
      split at he
      · next hg =>
        cases he
        exact .receiveNone hd hg
      · next hg =>
        cases he
        exact .receive hd hg
  | serverTimeout =>
    simp only [step] at he
    split_ifs at he with ho
    cases he
    exact .serverTimeout ho
  | sendControl =>
    simp only [step] at he
    split at he
    · cases he
    · next hq =>
      cases he
      exact .sendControl hq
  | sendOutbound =>
    simp only [step] at he
    split at he
    · cases he
    · next hq =>
      cases he
      exact .sendOutbound hq
  | sendHeartbeat =>
    cases he
    exact .sendHeartbeat
  | popInbound =>
    simp only [step] at he
    split_ifs at he with hr
    split at he
    · cases he
    · next hq =>
      cases he
      exact .popInbound (by simpa using hr) hq
  | resubscribe =>
    simp only [step] at he
    split_ifs at he with hr
    cases he
    exact .resubscribe hr
  | brokerTakes fresh now =>
    simp only [step] at he
    split at he
    · cases he
    · next hu =>
      split at he
      · next hg =>
        cases he
        exact .takesNone fresh now hu hg
      · next hg =>
        cases he
        exact .takes fresh now hu hg
  | brokerTimesOut =>
    cases he
    exact .brokerTimesOut
  | brokerStep x =>
    simp only [step] at he
    split_ifs at he with hs
    cases he
    exact .brokerStep hs

theorem step_moves (h : s.Sound) (he : s.step pb e = some s') (t : String) :
    Move e t (s.view pb t) (s'.view pb t) := by
  cases step_fires he with
  | register key callback owner => exact move_register key callback owner t
  | unregister key owner => exact move_unregister key owner t
  | send hdata =>
    rw [ConnectionManager.sendRawEnvelope_of_data hdata]
    exact .idle Iff.rfl id id Iff.rfl Iff.rfl
  | receiveNone hd hg => exact move_receive_none hd hg t
  | receive hd hg => exact move_receive hd hg t
  | serverTimeout =>
    exact .idle Iff.rfl (fun hc => absurd hc Bool.false_ne_true) id Iff.rfl Iff.rfl
  | sendControl hq => exact move_sendControl hq t
  | @sendOutbound env rest hq =>
    have hdata := not_subscription_of_data (h.outbound env (hq ▸ List.mem_cons_self))
    exact move_sendOther hdata.1 hdata.2 t
  | sendHeartbeat =>
    have hne : Keys.heartbeat ≠ Keys.subscribe ∧ Keys.heartbeat ≠ Keys.unsubscribe := by decide
    apply move_sendOther
    · exact hne.1
    · exact hne.2
  | popInbound hr hq => exact move_popInbound hr hq t
  | resubscribe => exact move_resubscribe t
  | takesNone fresh now hu hg =>
    refine .idle Iff.rfl id id Iff.rfl ?_
    simp [view, pending, hu, List.filterMap_cons_none hg]
  | takes fresh now hu hg => exact move_brokerTakes h hu hg fresh now t
  | brokerTimesOut => exact move_brokerTimesOut h t
  | brokerStep hs => exact move_broker ((Broker.step_of_others h.broker hs).imp_right And.right) t

theorem Sound.of_outbound {b : Broker ω} {m : ConnectionManager κ} {up down : List Wire.Group}
    {resetting : Bool} (h : s.Sound) (hm : ∀ env ∈ m.outboundQueue, env ∈ s.client.outboundQueue)
    (hb : b.WellFormed) : Sound ⟨m, up, down, resetting, b⟩ :=
  ⟨hb, fun env henv => h.outbound env (hm env henv)⟩

theorem Sound.step (h : s.Sound) (he : s.step pb e = some s') : s'.Sound := by
  cases step_fires he with
  | register key callback owner =>
    rw [ConnectionManager.performRegistration_eq]
    exact h.of_outbound (fun _ => id) h.broker
  | unregister key owner =>
    have hq := s.client.outboundQueue_performUnregistration key owner
    exact h.of_outbound (fun _ hx => hq ▸ hx) h.broker
  | send hdata =>
    rw [ConnectionManager.sendRawEnvelope_of_data hdata]
    refine ⟨h.broker, fun env' henv => ?_⟩
    rcases List.mem_append.mp henv with henv | henv
    · exact h.outbound env' henv
    · rwa [List.mem_singleton.mp henv]
  | @receive _ _ inbound =>
    have hq := s.client.outboundQueue_receive inbound
    exact h.of_outbound (fun _ hx => hq ▸ hx) h.broker
  | @sendOutbound env rest hq =>
    exact h.of_outbound (fun _ hx => hq ▸ List.mem_cons_of_mem env hx) h.broker
  | resubscribe =>
    rw [ConnectionManager.resubscribeAll, ConnectionManager.sendSubscriptions_eq]
    exact h.of_outbound (fun _ => id) h.broker
  | @takes _ _ env fresh now =>
    exact h.of_outbound (fun _ => id) (h.broker.step (.fromRouter fresh now env s.client.clientId))
  | brokerTimesOut => exact h.of_outbound (fun _ => id) (h.broker.removeClient _)
  | @brokerStep x => exact h.of_outbound (fun _ => id) (h.broker.step x)
  | receiveNone | serverTimeout | sendControl | sendHeartbeat | popInbound | takesNone =>
    exact h.of_outbound (fun _ => id) h.broker

theorem Initial.sound (h : s.Initial pb) : s.Sound := by
  obtain ⟨clientId, hc, -, -, -, hb, -⟩ := h
  refine ⟨hb.wellFormed, fun env henv => ?_⟩
  rw [hc] at henv
  exact absurd henv List.not_mem_nil

theorem Quiescent.will_iff (h : s.Quiescent) (t : String) :
    (s.view pb t).will ↔ s.broker.Subscribed s.client.clientId t := by
  obtain ⟨hu, -, hc, -⟩ := h
  simp [view, pending, hu, hc, Settles]

theorem Quiescent.not_resetPending (h : s.Quiescent) : ¬ s.ResetPending pb := by
  obtain ⟨-, hd, -, -, hi, hr⟩ := h
  simp [ResetPending, hd, hi, hr]

/-- A topic with a callback will be held by a connected client, unless the broker has yet to meet
the client or the client has yet to answer a RESET. -/
def View.Kept (v : View) : Prop := v.wanted → v.connected → v.reset ∨ ¬ v.known ∨ v.will

theorem Move.kept {t : String} {v v' : View} (hm : Move e t v v') (h : v.Kept) : v'.Kept := by
  intro hw hc
  cases hm with
  | idle wanted connected reset known will =>
    rw [known, will]
    exact (h (wanted.mp hw) (connected hc)).imp_left reset
  | announce wanted will => exact Or.inr (Or.inr (will.mpr (Or.inl (wanted.mp hw))))
  | register _ connected will => exact Or.inr (Or.inr (will.mpr (Or.inl (connected.mp hc))))
  | unregister _ _ wanted => exact absurd hw wanted
  | forget _ known => exact Or.inr (Or.inl known)
  | meet _ reset => exact Or.inl reset

/-- In a quiescent state a connected client that the broker knows holds every topic it has a
callback for. -/
theorem no_subscription_lost (h : Reachable (Initial pb) (ofFun (step pb)) s) (hq : s.Quiescent)
    (hc : s.client.connected = true) (hk : s.client.clientId ∈ s.broker.clients) :
    ∀ t ∈ s.client.msgHandlers, s.broker.Subscribed s.client.clientId t := by
  have hinv : s.Sound ∧ ∀ t, (s.view pb t).Kept := by
    refine h.invariant (P := fun s => s.Sound ∧ ∀ t, (s.view pb t).Kept) ?_ ?_
    · intro s₀ h₀
      refine ⟨h₀.sound, fun t hw => ?_⟩
      obtain ⟨clientId, hc₀, -⟩ := h₀
      have hm : t ∈ s₀.client.msgHandlers := hw
      rw [hc₀] at hm
      exact absurd hm (AList.notMem_empty t)
    · intro u e u' hu hs
      exact ⟨hu.1.step hs, fun t => (step_moves hu.1 hs t).kept (hu.2 t)⟩
  intro t ht
  rcases hinv.2 t ht hc with hr | hn | hw
  · exact absurd hr hq.not_resetPending
  · exact absurd hk hn
  · exact (hq.will_iff t).mp hw

def strangers : Handshake Unit Unit :=
  { client := { clientId := "client-a" }, broker := { brokerId := "broker-1" } }

theorem strangers_initial : strangers.Initial BrokerProto.proto3 :=
  ⟨"client-a", rfl, rfl, rfl, rfl, ⟨_, [], ⟨"broker-1", 0, rfl⟩, .nil _⟩, by decide⟩

def someUuid : Uuid := ⟨"00000000-0000-4000-8000-000000000005", by decide⟩

/-- A first heartbeat is answered with RESET; the client comes online and announces its topic twice,
on the way online and in answer to the RESET. -/
def subscribing : List (Event Unit Unit) :=
  [.register "news" () 0, .sendHeartbeat, .brokerTakes someUuid 0, .receive, .popInbound,
    .resubscribe, .sendControl, .sendControl, .sendControl, .brokerTakes someUuid 0,
    .brokerTakes someUuid 0, .brokerTakes someUuid 0]

def subscribed : Handshake Unit Unit :=
  (exec (step BrokerProto.proto3) strangers subscribing).get (by decide +kernel)

theorem exec_subscribing :
    exec (step BrokerProto.proto3) strangers subscribing = some subscribed := by
  simp [subscribed]

theorem no_subscription_lost_news :
    "news" ∈ subscribed.client.msgHandlers ∧
      subscribed.broker.Subscribed subscribed.client.clientId "news" := by
  have hr := exec_run exec_subscribing
  have hend : "news" ∈ subscribed.client.msgHandlers ∧ subscribed.Quiescent ∧
      subscribed.client.connected = true ∧
      subscribed.client.clientId ∈ subscribed.broker.clients := by
    decide +kernel
  obtain ⟨hm, hq, hc, hk⟩ := hend
  have h := no_subscription_lost ⟨strangers, _, strangers_initial, hr⟩ hq hc hk
  exact ⟨hm, h "news" hm⟩

/-- The last callback of a topic is unregistered only while connected, or when the broker does not
hold the topic and nothing on its way will make it. -/
def NoticedUnregister (pb : Protobuf) (s : Handshake ω κ) (e : Event ω κ) : Prop :=
  ∀ t owner, e = .unregister t owner → s.client.OnlyOwner t owner →
    s.client.connected = true ∨
      ¬ Settles t (s.broker.Subscribed s.client.clientId t) (s.pending pb)

def View.Fresh (v : View) : Prop := v.will → v.wanted

theorem Move.fresh {t : String} {v v' : View} (hm : Move e t v v') (h : v.Fresh)
    (hn : ∀ owner, e = .unregister t owner → ¬ v'.wanted → v.wanted → v.connected ∨ ¬ v.will) :
    v'.Fresh := by
  intro hw
  cases hm with
  | idle wanted _ _ _ will => exact wanted.mpr (h (will.mp hw))
  | announce wanted will => exact wanted.mpr ((will.mp hw).elim id h)
  | register wanted => exact wanted
  | unregister owner event wanted will =>
    obtain ⟨hx, hc⟩ := will.mp hw
    rcases hn owner event wanted (h hx) with hc' | hx'
    · exact absurd hc' hc
    · exact absurd hx hx'
  | forget wanted _ will => exact wanted.mpr (h (will hw))
  | meet wanted _ will => exact wanted.mpr (h (will hw))

/-- If every unregistration is noticed, the broker holds in a quiescent state only topics that have
a callback, whether or not the client is connected. -/
theorem no_stale_subscription
    (h : Reachable (Initial pb) (guarded (NoticedUnregister pb) (ofFun (step pb))) s)
    (hq : s.Quiescent) :
    ∀ t, s.broker.Subscribed s.client.clientId t → t ∈ s.client.msgHandlers := by
  have hinv : s.Sound ∧ ∀ t, (s.view pb t).Fresh := by
    refine h.invariant (P := fun s => s.Sound ∧ ∀ t, (s.view pb t).Fresh) ?_ ?_
    · intro s₀ h₀
      refine ⟨h₀.sound, fun t hw => ?_⟩
      have hs := h₀.sound.broker
      obtain ⟨clientId, hc₀, hu₀, -, -, -, hk⟩ := h₀
      have hheld : s₀.broker.Subscribed clientId t := by
        simpa [view, pending, hc₀, hu₀, Settles] using hw
      exact absurd (hs.known_of_subscribed hheld) hk
    · rintro u e u' hu ⟨hg, hs⟩
      refine ⟨hu.1.step hs, fun t => (step_moves hu.1 hs t).fresh (hu.2 t) ?_⟩
      rintro owner rfl hw' hw
      obtain rfl : _ = u' := Option.some.inj hs
      -- the topic went away, so it was its last callback that did
      rcases u.client.performUnregistration_cases t owner with ⟨handlers, he, hh⟩ | ⟨ho, -⟩
      · have hgone : t ∉ (u.client.performUnregistration t owner).msgHandlers := hw'
        rw [he] at hgone
        exact absurd ((hh t).mpr hw) hgone
      · exact hg t owner rfl ho
  intro t ht
  exact hinv.2 t ((hq.will_iff t).mpr ht)

theorem no_stale_subscription_news :
    subscribed.broker.Subscribed subscribed.client.clientId "news" ∧
      "news" ∈ subscribed.client.msgHandlers := by
  have hG : ∀ e ∈ subscribing, ∀ s, NoticedUnregister BrokerProto.proto3 s e := by
    intro e he s t owner hu
    subst hu
    simp [subscribing] at he
  have hr := exec_guarded (fun x hx => hG x.2 (List.of_mem_zip hx).2 x.1) exec_subscribing
  have hs : subscribed.broker.Subscribed subscribed.client.clientId "news" := by
    unfold Broker.Subscribed
    decide +kernel
  exact ⟨hs, no_stale_subscription ⟨strangers, _, strangers_initial, hr⟩ (by decide +kernel) "news"
    hs⟩

/-- The answer to a heartbeat is late, the client gives the broker up and drops its callback; then
the answer arrives. The broker never misses the client, so no RESET follows. -/
def unnoticed : List (Event Unit Unit) :=
  subscribing ++ [.sendHeartbeat, .brokerTakes someUuid (seconds 9), .serverTimeout,
    .unregister "news" 0, .receive, .sendControl, .brokerTakes someUuid (seconds 11)]

def stale : Handshake Unit Unit :=
  (exec (step BrokerProto.proto3) strangers unnoticed).get (by decide +kernel)

/-- A subscription without a callback outlives an offline period that the broker does not notice. -/
theorem stale_subscription_reachable :
    ∃ s : Handshake Unit Unit,
      Reachable (Initial BrokerProto.proto3) (ofFun (step BrokerProto.proto3)) s ∧
      s.Quiescent ∧ s.client.connected = true ∧ s.client.clientId ∈ s.broker.clients ∧
      s.broker.Subscribed s.client.clientId "news" ∧ "news" ∉ s.client.msgHandlers := by
  have he : exec (step BrokerProto.proto3) strangers unnoticed = some stale := by simp [stale]
  have hr := exec_run he
  refine ⟨stale, ⟨strangers, _, strangers_initial, hr⟩, ?_⟩
  unfold Broker.Subscribed
  decide +kernel

end Handshake

end ZmqPubSub
