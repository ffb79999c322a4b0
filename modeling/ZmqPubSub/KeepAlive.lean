import ZmqPubSub.BrokerHistory
import ZmqPubSub.ClientLifetimes
import ZmqPubSub.Handshake
import ZmqPubSub.WorkerLoop

/-!
A worker and its broker under one clock. Both give each other up after ten seconds of silence, the
worker sends a heartbeat every three. If no pass of the worker and no message takes too long, and
no pipe refuses a heartbeat or the answer to one, neither timeout ever fires.
-/

namespace ZmqPubSub

open Containers TransitionSystem
open Periodic (Within)

def Broker.Event.time? {ω : Type*} : Broker.Event ω → Option Time
  | .fromRouter _ now _ _ => some now
  | .fromPeer _ now _ => some now
  | .sweep now => some now
  | .broadcastStats now => some now
  | .addPeer _ _ => none
  | .removePeer _ => none

structure KeepAlive (ω : Type*) where
  worker : WorkerLoop
  /-- From the worker's socket to the broker, each with the time at which it was sent. -/
  up : List (Time × Sent Envelope) := []
  broker : Broker ω
  clock : Time

namespace KeepAlive

variable {ω : Type*}

inductive Event (ω : Type*)
  | worker (e : WorkerLoop.Event)
  /-- The broker reads a message of this worker. Of what it sends to the worker then, the pipe
  refuses what stands at the positions `refused`. -/
  | take (fresh : Uuid) (now : Time) (refused : List ℕ)
  /-- An input of the broker that is not this worker's. -/
  | broker (e : Broker.Event ω) (refused : List ℕ)

def Event.time? : Event ω → Option Time
  | .worker (.turn now _ _) => some now
  | .worker _ => none
  | .take _ now _ => some now
  | .broker e _ => e.time?

variable (pb : Protobuf) (s : KeepAlive ω)

/-- What `wire::send` is given for it. -/
def envelope (clientId : String) : Sent Envelope → Envelope
  | .heartbeat => heartbeatEnvelope clientId
  | .message env => env

/-- What the pipe takes of the groups that are sent. -/
def taken (refused : List ℕ) (groups : List Wire.Group) : List Wire.Group :=
  (groups.zipIdx.filter fun x => x.2 ∉ refused).map Prod.fst

/-- The broker after a call, with what it sent to the worker on its way down. -/
def brokerDoes (r : Broker ω × List (Effect ω)) (now : Time) (refused : List ℕ) : KeepAlive ω :=
  { s with
    broker := r.1
    worker := { s.worker with
      socket := s.worker.socket ++
        (taken refused (Handshake.delivered s.worker.clientId r.2)).map fun group =>
          (now, group) } }

/-- The worker after a step, with what it put on the wire on its way up. -/
def workerDoes (worker : WorkerLoop) : KeepAlive ω :=
  { s with
    worker := worker
    up := s.up ++ (worker.worker.wire.drop s.worker.worker.wire.length).map fun x => (s.clock, x) }

def act : Event ω → Option (KeepAlive ω)
  -- nobody but the broker sends to the worker
  | .worker (.arrive _ _) => none
  | .worker e => (s.worker.step pb e).map s.workerDoes
  | .take fresh now refused =>
    match s.up with
    | [] => none
    | (_, x) :: rest =>
      match Wire.recv pb (Wire.send pb (envelope s.worker.clientId x)) with
      | none => some { s with up := rest }
      | some env => some (brokerDoes { s with up := rest }
          (s.broker.processFromRouter pb fresh now env s.worker.clientId) now refused)
  | .broker e refused =>
    if e.sender = some s.worker.clientId then none
    else some (s.brokerDoes (s.broker.step pb e) s.clock refused)

def step (e : Event ω) : Option (KeepAlive ω) :=
  if s.clock ≤ e.time?.getD s.clock then act pb { s with clock := e.time?.getD s.clock } e else none

/-- A worker that starts, and a broker that has been running but has not met it. -/
def Initial : Prop :=
  s.worker.Initial s.clock ∧ s.up = [] ∧ Broker.Reachable pb s.broker ∧
    s.worker.clientId ∉ s.broker.clients

/-- How long a pass of the worker and a message may take. -/
structure Bounds where
  pass : Time
  up : Time
  down : Time
  pass_nonneg : 0 ≤ pass
  up_nonneg : 0 ≤ up
  down_nonneg : 0 ≤ down
  sum_le : WorkerLoop.heartbeatInterval + pass + up + down ≤ WorkerLoop.serverTimeout

theorem Bounds.down_le (B : Bounds) : B.down ≤ WorkerLoop.serverTimeout := by
  have hint : 0 ≤ WorkerLoop.heartbeatInterval := by decide
  linarith [B.sum_le, B.pass_nonneg, B.up_nonneg]

/-- Nothing is overdue at the time of the event. -/
def Punctual (B : Bounds) (s : KeepAlive ω) (e : Event ω) : Prop :=
  ∀ now ∈ e.time?, now ≤ s.worker.lastPass + B.pass ∧ (∀ x ∈ s.up, now ≤ x.1 + B.up) ∧
    ∀ x ∈ s.worker.socket, now ≤ x.1 + B.down

instance (B : Bounds) (s : KeepAlive ω) (e : Event ω) : Decidable (s.Punctual B e) :=
  inferInstanceAs (Decidable (∀ now ∈ e.time?, _))

/-- The broker is not about to read a DISCONNECT of the worker. -/
def Stays (s : KeepAlive ω) : Event ω → Prop
  | .take _ _ _ => ∀ x ∈ s.up.head?, (envelope s.worker.clientId x.2).key ≠ Keys.disconnect
  | _ => True

instance (s : KeepAlive ω) : (e : Event ω) → Decidable (s.Stays e)
  | .take _ _ _ => inferInstanceAs (Decidable (∀ x ∈ s.up.head?, _))
  | .worker _ => instDecidableTrue
  | .broker _ _ => instDecidableTrue

/-- No heartbeat and no answer to one is refused by a full pipe. -/
def Unrefused (s : KeepAlive ω) : Event ω → Prop
  | .worker (.turn _ _ accepted) => s.worker.worker.phase = .timers → accepted = true
  | .take _ _ refused => ∀ x ∈ s.up.head?, x.2 = .heartbeat → refused = []
  | _ => True

instance (s : KeepAlive ω) : (e : Event ω) → Decidable (s.Unrefused e)
  | .worker (.turn _ _ _) => inferInstanceAs (Decidable (_ → _))
  | .take _ _ _ => inferInstanceAs (Decidable (∀ x ∈ s.up.head?, _ → _))
  | .worker (.arrive _ _) | .worker (.writeControlMessage _) | .worker (.writeMessage _)
  | .worker .stop | .broker _ _ => instDecidableTrue

theorem taken_subset (refused : List ℕ) (groups : List Wire.Group) :
    taken refused groups ⊆ groups := by
  intro group hg
  obtain ⟨x, hx, rfl⟩ := List.mem_map.mp hg
  exact List.fst_mem_of_mem_zipIdx (List.mem_of_mem_filter hx)

theorem taken_nil (groups : List Wire.Group) : taken [] groups = groups := by
  simp [taken]

variable {pb s} {s' : KeepAlive ω}

theorem act_worker {e : WorkerLoop.Event} (h : s.act pb (.worker e) = some s') :
    (∀ sent group, e ≠ .arrive sent group) ∧
    ∃ worker, s.worker.step pb e = some worker ∧ s' = s.workerDoes worker := by
  have hmap : ∀ {e}, (s.worker.step pb e).map s.workerDoes = some s' →
      ∃ worker, s.worker.step pb e = some worker ∧ s' = s.workerDoes worker := by
    intro e h
    obtain ⟨worker, hw, he⟩ := Option.map_eq_some_iff.mp h
    exact ⟨worker, hw, he.symm⟩
  cases e with
  | arrive => cases h
  | turn now readable accepted => exact ⟨by simp, hmap h⟩
  | writeControlMessage env => exact ⟨by simp, hmap h⟩
  | writeMessage env => exact ⟨by simp, hmap h⟩
  | stop => exact ⟨by simp, hmap h⟩

theorem act_take {fresh : Uuid} {now : Time} {refused : List ℕ}
    (h : s.act pb (.take fresh now refused) = some s') :
    ∃ t x rest, s.up = (t, x) :: rest ∧
      s' = brokerDoes { s with up := rest } (s.broker.processFromRouter pb fresh now
        (envelope s.worker.clientId x) s.worker.clientId) now refused := by
  rw [act] at h
  split at h
  · cases h
  · next t x rest hup =>
    rw [Wire.recv_send] at h
    exact ⟨t, x, rest, hup, (Option.some.inj h).symm⟩

theorem act_broker {e : Broker.Event ω} {refused : List ℕ}
    (h : s.act pb (.broker e refused) = some s') : e.sender ≠ some s.worker.clientId ∧
      s' = s.brokerDoes (s.broker.step pb e) s.clock refused := by
  rw [act] at h
  split_ifs at h with hs
  exact ⟨hs, (Option.some.inj h).symm⟩

theorem step_act {e : Event ω} (h : s.step pb e = some s') :
    s.clock ≤ e.time?.getD s.clock ∧
    act pb { s with clock := e.time?.getD s.clock } e = some s' := by
  rw [step] at h
  split_ifs at h with hc
  exact ⟨hc, h⟩

theorem recv_delivered {b : Broker ω} (hb : b.WellFormed) (e : Broker.Event ω) {c : String}
    {group : Wire.Group} (hg : group ∈ Handshake.delivered c (b.step pb e).2) :
    ∃ env, Wire.recv pb group = some env := by
  obtain ⟨x, hx, rfl⟩ := List.mem_map.mp hg
  replace hx := List.mem_of_mem_filter hx
  cases @Broker.step_activation ω pb b hb e with
  | quiet _ _ _ _ _ hsends =>
    obtain ⟨env, -, -, he⟩ := hsends x hx
    exact ⟨env, by rw [he, Wire.recv_sendFrames]⟩
  | duplicate sender env _ _ _ he =>
    rw [he] at hx
    cases hx
  | new sender env ids hr =>
    rw [hr.effects_eq, Effect.clientSends_routing] at hx
    obtain ⟨id, -, rfl⟩ := List.mem_map.mp hx
    exact ⟨env, Wire.recv_sendFrames pb env.header env.payload⟩

/-- A heartbeat is answered, with RESET or with HEARTBEAT_ACK. -/
theorem delivered_heartbeat (b : Broker ω) (fresh : Uuid) (now : Time) (c : String) :
    Handshake.delivered c (b.processFromRouter pb fresh now (heartbeatEnvelope c) c).2 ≠ [] := by
  obtain ⟨b₀, he, -⟩ := @Broker.processFromRouter_eq ω pb b fresh now (heartbeatEnvelope c) c
  have hkey : (b₀.stamp fresh (heartbeatEnvelope c).header).handlerKey = Keys.heartbeat :=
    Broker.stamp_handlerKey fresh (heartbeatEnvelope c).header
  have hanswer : ∃ header, (b₀.processLocal pb now (b₀.stamp fresh (heartbeatEnvelope c).header)
      (heartbeatEnvelope c).payload c).2 =
        [.sendToClient c (Wire.encodeHeader pb header) []] := by
    unfold Broker.processLocal
    rw [hkey, if_neg (by decide)]
    by_cases hc : c ∈ b₀.clients
    · rw [if_neg (not_not.mpr hc), if_neg (by decide), if_pos rfl]
      exact ⟨Broker.ackMsg, rfl⟩
    · rw [if_pos hc]
      exact ⟨Broker.resetMsg, rfl⟩
  obtain ⟨header, hanswer⟩ := hanswer
  simp [he, Broker.processMessage, hanswer, Handshake.delivered, Effect.clientSends]

def beats (up : List (Time × Sent Envelope)) : List Time :=
  up.filterMap fun x => if x.2 = .heartbeat then some x.1 else none

def Bounds.beat (B : Bounds) : Time := WorkerLoop.heartbeatInterval + B.pass

/-- `p` is when the latest heartbeat that the broker has handled was sent, `q` when the broker sent
what the worker received last, and `r` when it last sent something to the worker. -/
structure Alive (pb : Protobuf) (B : Bounds) (p q r : Time) (s : KeepAlive ω) : Prop where
  reachable : Broker.Reachable pb s.broker
  pass : s.worker.lastPass ≤ s.worker.lastHeartbeat + WorkerLoop.heartbeatInterval
  notAhead : p ≤ s.clock
  notLate : s.clock ≤ p + (B.beat + B.up)
  sent : ∀ x ∈ s.up, x.1 ≤ s.clock
  up : Periodic.Done (Within B.beat) p (beats s.up) s.worker.lastHeartbeat
  lastSeen : ∀ client, s.broker.clients.lookup s.worker.clientId = some client → p ≤ client.lastSeen
  socket : ∀ x ∈ s.worker.socket, x.1 ≤ s.clock ∧ ∃ env, Wire.recv pb x.2 = some env
  down : Periodic.Done (Within (B.beat + B.up)) q (s.worker.socket.map Prod.fst) r
  answered : p ≤ r
  lastRx : q ≤ s.worker.lastRxTime
  notSilent : s.clock ≤ q + WorkerLoop.serverTimeout

variable {B : Bounds} {p q r : Time}

theorem Alive.beatInTime (h : Alive pb B p q r s) {now : Time}
    (hpass : now ≤ s.worker.lastPass + B.pass) (hup : ∀ x ∈ s.up, now ≤ x.1 + B.up) :
    now ≤ p + (B.beat + B.up) := by
  have hbeat : B.beat = WorkerLoop.heartbeatInterval + B.pass := rfl
  cases hbeats : beats s.up with
  | nil =>
    -- it is not sent yet
    have hlast : p = s.worker.lastHeartbeat := by simpa [hbeats] using h.up.last_eq
    have hpass' := h.pass
    have hnonneg := B.up_nonneg
    linarith
  | cons t rest =>
    have hfirst : t ≤ p + B.beat := (hbeats ▸ h.up).rest.1
    have ht : t ∈ beats s.up := hbeats ▸ List.mem_cons_self
    obtain ⟨x, hx, hxt⟩ := List.mem_filterMap.mp ht
    have hnow := hup x hx
    split_ifs at hxt
    cases hxt
    linarith

theorem Alive.messageInTime (h : Alive pb B p q r s) {now : Time}
    (hlate : now ≤ p + (B.beat + B.up)) (hdown : ∀ x ∈ s.worker.socket, now ≤ x.1 + B.down) :
    now ≤ q + WorkerLoop.serverTimeout := by
  have hbeat : B.beat = WorkerLoop.heartbeatInterval + B.pass := rfl
  have hsum := B.sum_le
  cases hs : s.worker.socket with
  | nil =>
    -- it is not sent yet
    have hlast : q = r := by simpa [hs] using h.down.last_eq
    have hanswered := h.answered
    have hnonneg := B.down_nonneg
    linarith
  | cons x rest =>
    have hd := h.down
    rw [hs] at hd
    have hfirst : x.1 ≤ q + (B.beat + B.up) := hd.rest.1
    have hnow := hdown x (hs ▸ List.mem_cons_self)
    linarith

theorem Alive.tick (h : Alive pb B p q r s) {e : Event ω} (hp : s.Punctual B e)
    (hc : s.clock ≤ e.time?.getD s.clock) :
    Alive pb B p q r { s with clock := e.time?.getD s.clock } := by
  have hlate : e.time?.getD s.clock ≤ p + (B.beat + B.up) ∧
      e.time?.getD s.clock ≤ q + WorkerLoop.serverTimeout := by
    cases he : e.time? with
    | none => exact ⟨h.notLate, h.notSilent⟩
    | some now =>
      obtain ⟨hpass, hup, hdown⟩ := hp now he
      have hbeat := h.beatInTime hpass hup
      exact ⟨hbeat, h.messageInTime hbeat hdown⟩
  obtain ⟨h1, h2, h3, -, h5, h6, h7, h8, h9, h10, h11, -⟩ := h
  exact ⟨h1, h2, h3.trans hc, hlate.1, fun x hx => (h5 x hx).trans hc, h6, h7,
    fun x hx => ⟨(h8 x hx).1.trans hc, (h8 x hx).2⟩, h9, h10, h11, hlate.2⟩

theorem Alive.brokerDoes (h : Alive pb B p q r s) (e : Broker.Event ω) (refused : List ℕ)
    (hseen : ∀ client, (s.broker.step pb e).1.clients.lookup s.worker.clientId = some client →
      p ≤ client.lastSeen) :
    ∃ r', (taken refused (Handshake.delivered s.worker.clientId (s.broker.step pb e).2) ≠ [] →
        r' = s.clock) ∧
      Alive pb B p q r' (s.brokerDoes (s.broker.step pb e) s.clock refused) := by
  have hrecv : ∀ group ∈ taken refused (Handshake.delivered s.worker.clientId
      (s.broker.step pb e).2), ∃ env, Wire.recv pb group = some env :=
    fun _ hg => recv_delivered h.reachable.wellFormed e (taken_subset _ _ hg)
  obtain ⟨h1, h2, h3, h4, h5, h6, -, h8, h9, h10, h11, h12⟩ := h
  have hreach : Broker.Reachable pb (s.broker.step pb e).1 := h1.tail rfl
  unfold KeepAlive.brokerDoes
  generalize hg : taken refused (Handshake.delivered s.worker.clientId (s.broker.step pb e).2) =
    groups at hrecv ⊢
  have hsocket : ∀ x ∈ s.worker.socket ++ groups.map (fun group => (s.clock, group)),
      x.1 ≤ s.clock ∧ ∃ env, Wire.recv pb x.2 = some env := by
    intro x hx
    rcases List.mem_append.mp hx with hx | hx
    · exact h8 x hx
    · obtain ⟨group, hgroup, rfl⟩ := List.mem_map.mp hx
      exact ⟨le_refl _, hrecv group hgroup⟩
  cases groups with
  | nil =>
    refine ⟨r, fun hne => absurd rfl hne, hreach, h2, h3, h4, h5, h6, hseen, hsocket, ?_, h10, h11,
      h12⟩
    simpa using h9
  | cons group rest =>
    refine ⟨s.clock, fun _ => rfl, hreach, h2, h3, h4, h5, h6, hseen, hsocket, ?_, h3, h11,
      h12⟩
    have hlate : Within (B.beat + B.up) r s.clock := h4.trans (by linarith)
    have hnow : Within (B.beat + B.up) s.clock s.clock := by
      have hint : 0 ≤ WorkerLoop.heartbeatInterval := by decide
      have hbeat : B.beat = WorkerLoop.heartbeatInterval + B.pass := rfl
      have hpass := B.pass_nonneg
      have hup := B.up_nonneg
      unfold Within
      linarith
    have hmap :
        (s.worker.socket ++ (group :: rest).map fun group => (s.clock, group)).map Prod.fst =
        s.worker.socket.map Prod.fst ++ List.replicate (rest.length + 1) s.clock := by
      rw [List.map_append, List.map_map, ← List.length_cons]
      exact congrArg _ List.map_const'
    exact hmap ▸ h9.replicate hlate hnow rest.length

theorem Alive.dropBeat {t : Time} {rest : List (Time × Sent Envelope)}
    (h : Alive pb B p q s.clock s) (hup : s.up = (t, .heartbeat) :: rest)
    (hlate : s.clock ≤ t + B.up)
    (hseen : ∀ client, s.broker.clients.lookup s.worker.clientId = some client →
      t ≤ client.lastSeen) : Alive pb B t q s.clock { s with up := rest } := by
  obtain ⟨h1, h2, -, -, h5, h6, -, h8, h9, -, h11, h12⟩ := h
  rw [hup] at h5 h6
  have ht : t ≤ s.clock := h5 (t, .heartbeat) List.mem_cons_self
  have hbeat : B.beat = WorkerLoop.heartbeatInterval + B.pass := rfl
  have hint : 0 ≤ WorkerLoop.heartbeatInterval := by decide
  have hpass := B.pass_nonneg
  refine ⟨h1, h2, ht, ?_, fun x hx => h5 x (List.mem_cons_of_mem _ hx), h6.rest.2, hseen, h8, h9,
    ht, h11, h12⟩
  change s.clock ≤ t + (B.beat + B.up)
  linarith

theorem Alive.dropMessage {t : Time} {env : Envelope} {rest : List (Time × Sent Envelope)}
    (h : Alive pb B p q r s) (hup : s.up = (t, .message env) :: rest) :
    Alive pb B p q r { s with up := rest } := by
  obtain ⟨h1, h2, h3, h4, h5, h6, h7, h8, h9, h10, h11, h12⟩ := h
  rw [hup] at h5 h6
  exact ⟨h1, h2, h3, h4, fun x hx => h5 x (List.mem_cons_of_mem _ hx), h6, h7, h8, h9, h10, h11,
    h12⟩

theorem Alive.take (h : Alive pb B p q r s) {fresh : Uuid} {refused : List ℕ}
    (hup : ∀ x ∈ s.up, s.clock ≤ x.1 + B.up) (hu : s.Unrefused (.take fresh s.clock refused))
    (ha : s.act pb (.take fresh s.clock refused) = some s') :
    ∃ p' r', Alive pb B p' q r' s' ∧ (p' = p ∨ s'.worker.clientId ∈ s'.broker.clients) := by
  obtain ⟨t, x, rest, hs, rfl⟩ := act_take ha
  have hnow : ∀ client, (s.broker.processFromRouter pb fresh s.clock
      (envelope s.worker.clientId x) s.worker.clientId).1.clients.lookup s.worker.clientId =
        some client → client.lastSeen = s.clock := by
    intro client hl
    rw [Broker.lookup_processFromRouter_self] at hl
    split_ifs at hl
    cases hl
    rfl
  obtain ⟨r', hr', h'⟩ := h.brokerDoes (.fromRouter fresh s.clock (envelope s.worker.clientId x)
    s.worker.clientId) refused fun client hl => h.notAhead.trans (hnow client hl).ge
  cases x with
  | heartbeat =>
    obtain rfl : refused = [] := hu (t, .heartbeat) (by rw [hs]; rfl) rfl
    rw [taken_nil] at hr'
    obtain rfl := hr' (delivered_heartbeat s.broker fresh s.clock s.worker.clientId)
    have ht : t ≤ s.clock := h.sent (t, .heartbeat) (hs ▸ List.mem_cons_self)
    refine ⟨t, s.clock, Alive.dropBeat (s := s.brokerDoes _ s.clock []) h' hs ?_ ?_, .inr ?_⟩
    · exact hup (t, .heartbeat) (hs ▸ List.mem_cons_self)
    · exact fun client hl => ht.trans (hnow client hl).ge
    · exact (Broker.mem_clients_processFromRouter fresh s.clock
        (heartbeatEnvelope s.worker.clientId) s.worker.clientId s.worker.clientId).mpr (.inl rfl)
  | message env => exact ⟨p, r', Alive.dropMessage (s := s.brokerDoes _ s.clock _) h' hs, .inl rfl⟩

/-- An input of the broker that is not the worker's leaves its entry, or it is a sweep. -/
theorem lookup_step_other {b : Broker ω} (hb : b.WellFormed) {e : Broker.Event ω} {c : String}
    (hs : e.sender ≠ some c) :
    (b.step pb e).1.clients.lookup c = b.clients.lookup c ∨
    ∃ now, e = .sweep now ∧ (b.step pb e).1.clients.lookup c =
      (b.clients.lookup c).filter fun client => now - client.lastSeen ≤ Broker.clientTimeout := by
  cases e with
  | fromRouter fresh now env identity =>
    have hne : c ≠ identity := fun hc => hs (congrArg some hc.symm)
    exact .inl (Broker.lookup_processFromRouter_of_ne fresh now env hne)
  | fromPeer fresh now env =>
    exact .inl (congrArg (AList.lookup c) (Broker.processFromPeer_frame fresh now env).1)
  | sweep now => exact .inr ⟨now, rfl, Broker.lookup_sweep hb now c⟩
  | broadcastStats now => exact .inl rfl
  | addPeer key peer =>
    rw [Broker.step, Broker.addPeer_frame]
    exact .inl rfl
  | removePeer key => exact .inl rfl

theorem Alive.broker (h : Alive pb B p q r s) {e : Broker.Event ω} {refused : List ℕ}
    (ha : s.act pb (.broker e refused) = some s') : ∃ r', Alive pb B p q r' s' := by
  obtain ⟨hs, rfl⟩ := act_broker ha
  obtain ⟨r', -, h'⟩ := h.brokerDoes e refused fun client hl => by
    rcases @lookup_step_other ω pb s.broker h.reachable.wellFormed e _ hs with he | ⟨now, -, he⟩
    · exact h.lastSeen client (he ▸ hl)
    · rw [he] at hl
      exact h.lastSeen client (Option.filter_eq_some_iff.mp hl).1
  exact ⟨r', h'⟩

theorem beats_append_beat (up : List (Time × Sent Envelope)) (t : Time) :
    beats (up ++ [(t, .heartbeat)]) = beats up ++ [t] := by
  simp [beats]

theorem beats_append_messages (up : List (Time × Sent Envelope)) (t : Time)
    {sent : List (Sent Envelope)} (hn : .heartbeat ∉ sent) :
    beats (up ++ sent.map fun x => (t, x)) = beats up := by
  have hnone : beats (sent.map fun x => (t, x)) = [] := by
    unfold beats
    rw [List.filterMap_map, List.filterMap_eq_nil_iff]
    intro x hx
    exact if_neg fun he : x = .heartbeat => hn (he ▸ hx)
  rw [beats, List.filterMap_append]
  exact (congrArg _ hnone).trans (List.append_nil _)

/-- The worker takes a step, and what it puts on the wire goes up. -/
theorem Alive.workerDoes (h : Alive pb B p q r s) {worker : WorkerLoop}
    {sent : List (Sent Envelope)} {q' : Time} (hid : worker.clientId = s.worker.clientId)
    (hwire : worker.worker.wire = s.worker.worker.wire ++ sent)
    (hpass : worker.lastPass ≤ worker.lastHeartbeat + WorkerLoop.heartbeatInterval)
    (hbeats : Periodic.Done (Within B.beat) p (beats (s.up ++ sent.map fun x => (s.clock, x)))
      worker.lastHeartbeat)
    (hsocket : worker.socket ⊆ s.worker.socket)
    (hdown : Periodic.Done (Within (B.beat + B.up)) q' (worker.socket.map Prod.fst) r)
    (hrx : q' ≤ worker.lastRxTime) (hsilent : s.clock ≤ q' + WorkerLoop.serverTimeout) :
    Alive pb B p q' r (s.workerDoes worker) := by
  obtain ⟨h1, -, h3, h4, h5, -, h7, h8, -, h10, -, -⟩ := h
  have hup : (s.workerDoes worker).up = s.up ++ sent.map fun x => (s.clock, x) := by
    simp [KeepAlive.workerDoes, hwire]
  refine ⟨h1, hpass, h3, h4, ?_, hup ▸ hbeats, ?_, fun x hx => h8 x (hsocket hx), hdown, h10, hrx,
    hsilent⟩
  · intro x hx
    rw [hup] at hx
    rcases List.mem_append.mp hx with hx | hx
    · exact h5 x hx
    · obtain ⟨y, -, rfl⟩ := List.mem_map.mp hx
      exact le_refl s.clock
  · intro client hl
    exact h7 client (hid ▸ hl)

theorem Alive.timers (h : Alive pb B p q r s) {worker : ZmqWorker Envelope}
    (hpass : s.clock ≤ s.worker.lastPass + B.pass)
    (hwire : worker.wire = s.worker.worker.wire ++
      if s.worker.heartbeatDue s.clock then [.heartbeat] else []) :
    Alive pb B p q r (s.workerDoes
      { WorkerLoop.timers { s.worker with clock := s.clock } s.clock with worker := worker }) := by
  obtain ⟨hid, hsock, hrx, -⟩ := WorkerLoop.timers_frame { s.worker with clock := s.clock } s.clock
  have hlast := WorkerLoop.timers_lastHeartbeat { s.worker with clock := s.clock } s.clock
  refine h.workerDoes hid hwire ?_ ?_ (hsock ▸ List.Subset.refl _) ?_ (hrx ▸ h.lastRx) h.notSilent
  · change s.clock ≤ (WorkerLoop.timers _ s.clock).lastHeartbeat + WorkerLoop.heartbeatInterval
    rw [hlast]
    split_ifs with hd
    · have hint : 0 ≤ WorkerLoop.heartbeatInterval := by decide
      linarith
    · have hnot : ¬ s.clock - s.worker.lastHeartbeat > WorkerLoop.heartbeatInterval :=
        fun hlt => hd (decide_eq_true hlt)
      change s.clock ≤ s.worker.lastHeartbeat + WorkerLoop.heartbeatInterval
      linarith
  · change Periodic.Done _ p _ (WorkerLoop.timers _ s.clock).lastHeartbeat
    rw [hlast]
    change Periodic.Done _ p _ (if s.worker.heartbeatDue s.clock then _ else _)
    split_ifs with hd
    · rw [List.map_singleton, beats_append_beat]
      refine h.up.again ?_
      have hbeat : B.beat = WorkerLoop.heartbeatInterval + B.pass := rfl
      have hlastPass := h.pass
      unfold Within
      linarith
    · rw [List.map_nil, List.append_nil]
      exact h.up
  · change Periodic.Done _ q ((WorkerLoop.timers _ s.clock).socket.map Prod.fst) r
    rw [hsock]
    exact h.down

theorem Alive.turn (h : Alive pb B p q r s) {readable accepted : Bool}
    (hpass : s.clock ≤ s.worker.lastPass + B.pass)
    (hdown : ∀ x ∈ s.worker.socket, s.clock ≤ x.1 + B.down)
    (hu : s.Unrefused (.worker (.turn s.clock readable accepted)))
    (ha : s.act pb (.worker (.turn s.clock readable accepted)) = some s') :
    ∃ q', Alive pb B p q' r s' ∧ (q' = q ∨ s'.worker.isOnline = true) := by
  obtain ⟨-, worker, hw, rfl⟩ := act_worker ha
  cases WorkerLoop.step_acts hw with
  | idle sent hp hwire hn =>
    refine ⟨q, h.workerDoes rfl hwire h.pass ?_ (List.Subset.refl _) h.down h.lastRx h.notSilent,
      .inl rfl⟩
    rw [beats_append_messages s.up s.clock hn]
    exact h.up
  | @garbage _ t _ _ group _ rest hp hsock hr hwire =>
    -- the broker sends nothing of that kind
    obtain ⟨-, env, henv⟩ := h.socket (t, group) (hsock ▸ List.mem_cons_self)
    rw [hr] at henv
    cases henv
  | @read _ t _ _ group inbound worker rest hp hsock hr hwire =>
    have hd := h.down
    have ht := (h.socket (t, group) (hsock ▸ List.mem_cons_self)).1
    have hnow := hdown (t, group) (hsock ▸ List.mem_cons_self)
    rw [hsock] at hd
    refine ⟨t, h.workerDoes rfl (hwire.trans (List.append_nil _).symm) h.pass ?_ ?_ hd.rest.2 ht ?_,
      .inr rfl⟩
    · rw [List.map_nil, List.append_nil]
      exact h.up
    · rw [hsock]
      exact List.subset_cons_self _ _
    · exact hnow.trans (add_le_add_right B.down_le t)
  | pass hp hwire =>
    obtain rfl := hu hp
    exact ⟨q, h.timers hpass (by simpa using hwire), .inl rfl⟩
  | write hne hwire => exact absurd rfl (hne s.clock readable accepted)

theorem Alive.write (h : Alive pb B p q r s) {e : WorkerLoop.Event}
    (he : ∀ now readable accepted, e ≠ .turn now readable accepted)
    (ha : s.act pb (.worker e) = some s') : Alive pb B p q r s' := by
  obtain ⟨harrive, worker, hw, rfl⟩ := act_worker ha
  cases WorkerLoop.step_acts hw with
  | write hne hwire =>
    refine h.workerDoes rfl (hwire.trans (List.append_nil _).symm) h.pass ?_ (List.Subset.refl _)
      h.down h.lastRx h.notSilent
    rw [List.map_nil, List.append_nil]
    exact h.up
  | arrive sent group => exact absurd rfl (harrive sent group)
  | idle => exact absurd rfl (he _ _ _)
  | garbage => exact absurd rfl (he _ _ _)
  | read => exact absurd rfl (he _ _ _)
  | pass => exact absurd rfl (he _ _ _)

/-- One step. The broker has handled a later heartbeat only if it knows the worker, and the worker
has received something later only if it is online. -/
theorem Alive.step (h : Alive pb B p q r s) {e : Event ω} (hp : s.Punctual B e)
    (hu : s.Unrefused e) (hs : s.step pb e = some s') : ∃ p' q' r', Alive pb B p' q' r' s' ∧
      (p' = p ∨ s'.worker.clientId ∈ s'.broker.clients) ∧ (q' = q ∨ s'.worker.isOnline = true) := by
  obtain ⟨hc, ha⟩ := step_act hs
  have ht := h.tick hp hc
  cases e with
  | take fresh now refused =>
    obtain ⟨p', r', h', hknown⟩ := ht.take (hp now rfl).2.1 hu ha
    exact ⟨p', q, r', h', hknown, .inl rfl⟩
  | broker e refused =>
    obtain ⟨r', h'⟩ := ht.broker ha
    exact ⟨p, q, r', h', .inl rfl, .inl rfl⟩
  | worker e =>
    cases e with
    | turn now readable accepted =>
      obtain ⟨q', h', honline⟩ := ht.turn (hp now rfl).1 (hp now rfl).2.2 hu ha
      exact ⟨p, q', r, h', .inl rfl, honline⟩
    | arrive sent group => cases ha
    | writeControlMessage env => exact ⟨p, q, r, ht.write (by simp) ha, .inl rfl, .inl rfl⟩
    | writeMessage env => exact ⟨p, q, r, ht.write (by simp) ha, .inl rfl, .inl rfl⟩
    | stop => exact ⟨p, q, r, ht.write (by simp) ha, .inl rfl, .inl rfl⟩

theorem Alive.isOnline (h : Alive pb B p q r s) {e : Event ω} (hp : s.Punctual B e)
    (hs : s.step pb e = some s') (ho : s.worker.isOnline = true) : s'.worker.isOnline = true := by
  obtain ⟨hc, ha⟩ := step_act hs
  have ht := h.tick hp hc
  cases e with
  | take fresh now refused =>
    obtain ⟨t, x, rest, -, rfl⟩ := act_take ha
    exact ho
  | broker e refused =>
    obtain ⟨-, rfl⟩ := act_broker ha
    exact ho
  | worker e =>
    obtain ⟨-, worker, hw, rfl⟩ := act_worker ha
    cases WorkerLoop.step_acts hw with
    | idle | garbage | arrive | write => exact ho
    | read => rfl
    | @pass now readable accepted worker hphase hwire =>
      refine (WorkerLoop.timers_isOnline _ now).mpr ⟨ho, ?_⟩
      have hrx := ht.lastRx
      have hsilent : now ≤ q + WorkerLoop.serverTimeout := ht.notSilent
      change now - s.worker.lastRxTime ≤ WorkerLoop.serverTimeout
      linarith

theorem Alive.lastSeen_fresh (h : Alive pb B p q r s) {client : ClientState}
    (hl : s.broker.clients.lookup s.worker.clientId = some client) :
    s.clock - client.lastSeen ≤ Broker.clientTimeout := by
  have hseen := h.lastSeen client hl
  have hlate := h.notLate
  have hbeat : B.beat = WorkerLoop.heartbeatInterval + B.pass := rfl
  have htimeout : WorkerLoop.serverTimeout = Broker.clientTimeout := rfl
  linarith [B.sum_le, B.down_nonneg]

theorem Alive.known (h : Alive pb B p q r s) {e : Event ω} (hp : s.Punctual B e) (hd : s.Stays e)
    (hs : s.step pb e = some s') (hm : s.worker.clientId ∈ s.broker.clients) :
    s'.worker.clientId ∈ s'.broker.clients := by
  obtain ⟨hc, ha⟩ := step_act hs
  have ht := h.tick hp hc
  cases e with
  | take fresh now refused =>
    obtain ⟨t, x, rest, hup, rfl⟩ := act_take ha
    have hkey : (envelope s.worker.clientId x).key ≠ Keys.disconnect :=
      hd (t, x) (by rw [show s.up = _ from hup]; rfl)
    refine (Broker.mem_clients_processFromRouter fresh now _ s.worker.clientId _).mpr ?_
    rw [if_neg hkey]
    exact .inl rfl
  | broker e refused =>
    obtain ⟨hsender, rfl⟩ := act_broker ha
    obtain ⟨client, hl⟩ := Option.isSome_iff_exists.mp (AList.lookup_isSome.mpr hm)
    change s.worker.clientId ∈ (s.broker.step pb e).1.clients
    refine AList.lookup_isSome.mp ?_
    rcases @lookup_step_other ω pb s.broker h.reachable.wellFormed e s.worker.clientId hsender with
      he | ⟨now, rfl, he⟩
    · rw [he, hl]
      rfl
    · have hfresh : now - client.lastSeen ≤ Broker.clientTimeout := ht.lastSeen_fresh hl
      rw [he, hl]
      simp [Option.filter, hfresh]
  | worker e =>
    obtain ⟨-, worker, hw, rfl⟩ := act_worker ha
    have hid : worker.clientId = s.worker.clientId := by
      cases WorkerLoop.step_acts hw with
      | pass => exact (WorkerLoop.timers_frame _ _).1
      | idle | garbage | read | arrive | write => rfl
    exact hid ▸ hm

variable {s₀ : KeepAlive ω} {tr : List (Event ω × KeepAlive ω)}

def starting : KeepAlive Unit where
  worker := WorkerLoop.freshWorker
  broker := { brokerId := "broker-1" }
  clock := 0

def passAt (now : Time) : List (Event Unit) :=
  List.replicate 5 (.worker (.turn now true true))

/-- A heartbeat that is answered, and three seconds of passes. -/
def meeting : List (Event Unit) :=
  passAt 1 ++ [.take ⟨"00000000-0000-4000-8000-000000000011", rfl⟩ 2 []] ++ passAt (seconds 1) ++
    passAt (seconds 2) ++ passAt (seconds 3)

def met : KeepAlive Unit :=
  (exec (step BrokerProto.proto3) starting meeting).get (by decide +kernel)

end KeepAlive

end ZmqPubSub
