import Mathlib.Data.Fintype.Card
import Mathlib.Data.Fintype.Sum
import Mathlib.Data.Sum.Basic
import ZmqPubSub.BrokerHistory

/-!
Any set of brokers with their links and clients. A port is the DEALER socket of a worker: of a link
that one broker dialed to another, or of a client. Each port has its two queues of outgoing messages
and a FIFO channel in each direction; the messages that links receive wait in the inbound queue of
the dialing broker, tagged with the link they came over.
-/

namespace ZmqPubSub

open Containers HistoryWindow TransitionSystem

/-- Who is connected to whom. A ROUTER socket tells its peers apart by their identities. -/
structure Network (ι ω κ : Type*) where
  /-- The broker that dialed the link. -/
  owner : ω → ι
  /-- The broker at the other end of the port. -/
  home : ω ⊕ κ → ι
  identity : ω ⊕ κ → String
  identity_inj : ∀ p q, home p = home q → identity p = identity q → p = q

structure Mesh (ι ω κ : Type*) where
  broker : ι → Broker ω
  control : ω ⊕ κ → List Envelope := fun _ => []
  outbound : ω ⊕ κ → List Envelope := fun _ => []
  up : ω ⊕ κ → List Wire.Group := fun _ => []
  down : ω ⊕ κ → List Wire.Group := fun _ => []
  inbound : ι → List (ω × Envelope) := fun _ => []
  /-- Every activation of every broker, oldest first. No step reads it. -/
  log : List (ι × List (Effect ω)) := []
  /-- The data messages that a client wrote. No step reads it. -/
  written : κ → List Envelope := fun _ => []
  /-- Those that its broker took, each with the identity it got there. No step reads it. -/
  taken : κ → List (Envelope × Envelope) := fun _ => []

namespace Mesh

variable {ι ω κ : Type*}

/-- A place where a message can be lost. -/
inductive Place (ι ω κ : Type*)
  | control (p : ω ⊕ κ)
  | outbound (p : ω ⊕ κ)
  | up (p : ω ⊕ κ)
  | down (p : ω ⊕ κ)
  | inbound (b : ι)

inductive Event (ι ω κ : Type*)
  /-- `sendRawEnvelope` of a client. -/
  | send (k : κ) (env : Envelope)
  | sendControl (p : ω ⊕ κ)
  | sendOutbound (p : ω ⊕ κ)
  | sendHeartbeat (p : ω ⊕ κ)
  /-- The broker reads a message of the port from its ROUTER socket. -/
  | take (p : ω ⊕ κ) (fresh : Uuid) (now : Time)
  /-- The worker of the port reads a message from its DEALER socket. -/
  | recv (p : ω ⊕ κ)
  /-- The broker pops a message from its peer inbound queue. -/
  | takePeer (b : ι) (fresh : Uuid) (now : Time)
  | sweep (b : ι) (now : Time)
  | broadcastStats (b : ι) (now : Time)
  | addPeer (b : ι) (key : String) (w : ω)
  | removePeer (b : ι) (key : String)
  /-- The message at this index is lost: a full queue or pipe, a broken connection. -/
  | drop (place : Place ι ω κ) (index : ℕ)

def recordTaken [DecidableEq κ] (s : Mesh ι ω κ) (p : ω ⊕ κ) (env stamped : Envelope) :
    Mesh ι ω κ :=
  match p with
  | .inl _ => s
  | .inr k =>
    if Keys.isControlMessage env.key then s
    else { s with taken := push s.taken k (env, stamped) }

theorem recordTaken_inr [DecidableEq κ] (s : Mesh ι ω κ) (k : κ) (env stamped : Envelope) :
    s.recordTaken (.inr k) env stamped =
      { s with taken := if Keys.isControlMessage env.key then s.taken
                        else push s.taken k (env, stamped) } := by
  unfold recordTaken
  dsimp only
  split_ifs <;> rfl

def activations [DecidableEq ι] (s : Mesh ι ω κ) (b : ι) : List (List (Effect ω)) :=
  (s.log.filter fun x => x.1 = b).map Prod.snd

theorem activations_snoc [DecidableEq ι] {s s' : Mesh ι ω κ} {b : ι} {act : List (Effect ω)}
    (hl : s'.log = s.log ++ [(b, act)]) (b' : ι) :
    s'.activations b' = s.activations b' ++ if b = b' then [act] else [] := by
  unfold activations
  rw [hl, List.filter_append, List.map_append]
  split_ifs with hb <;> simp [hb]

variable [DecidableEq ι] [DecidableEq ω] [DecidableEq κ]
variable (N : Network ι ω κ) (pb : Protobuf) (s : Mesh ι ω κ)

/-- What the calls of a broker put into the outbound queue of a port. -/
def linkWrites (effects : List (Effect ω)) : ω ⊕ κ → List Envelope
  | .inl w => ((Effect.peerSends effects).filter fun x => x.1 = w).map fun x => x.2
  | .inr _ => []

/-- What the calls of broker `b` put on the way down to a port. -/
def sentTo (b : ι) (effects : List (Effect ω)) (p : ω ⊕ κ) : List Wire.Group :=
  if N.home p = b then
    ((Effect.clientSends effects).filter fun x => x.1 = N.identity p).map fun x =>
      Wire.sendFrames x.2.1 x.2.2
  else []

def activate (b : ι) (e : Broker.Event ω) : Mesh ι ω κ :=
  let r := (s.broker b).step pb e
  { s with
    broker := Function.update s.broker b r.1
    outbound := fun p => s.outbound p ++ linkWrites r.2 p
    down := fun p => s.down p ++ sentTo N b r.2 p
    log := s.log ++ [(b, r.2)] }

/-- The message callback that `addPeer` installs, and the acknowledgements that the worker keeps
to itself. -/
def linkReceives (w : ω) (env : Envelope) : Mesh ι ω κ :=
  let sub := createControlEnvelope Keys.subscribe (N.identity (.inl w)) ""
  if env.key = Keys.heartbeatAck then s
  else if env.key = Keys.reset then { s with control := push s.control (.inl w) sub }
  else { s with inbound := push s.inbound (N.owner w) (w, env) }

def lose : Place ι ω κ → ℕ → Mesh ι ω κ
  | .control p, i => { s with control := Function.update s.control p ((s.control p).eraseIdx i) }
  | .outbound p, i =>
    { s with outbound := Function.update s.outbound p ((s.outbound p).eraseIdx i) }
  | .up p, i => { s with up := Function.update s.up p ((s.up p).eraseIdx i) }
  | .down p, i => { s with down := Function.update s.down p ((s.down p).eraseIdx i) }
  | .inbound b, i => { s with inbound := Function.update s.inbound b ((s.inbound b).eraseIdx i) }

def step : Event ι ω κ → Option (Mesh ι ω κ)
  | .send k env =>
    if Keys.isControlMessage env.key then
      some { s with control := push s.control (.inr k) env }
    else some { s with
      outbound := push s.outbound (.inr k) env, written := push s.written k env }
  | .sendControl p =>
    match s.control p with
    | [] => none
    | env :: rest => some { s with
        control := Function.update s.control p rest
        up := push s.up p (Wire.send pb env) }
  | .sendOutbound p =>
    match s.outbound p with
    | [] => none
    | env :: rest => some { s with
        outbound := Function.update s.outbound p rest
        up := push s.up p (Wire.send pb env) }
  | .sendHeartbeat p => some { s with
      up := push s.up p (Wire.send pb (heartbeatEnvelope (N.identity p))) }
  | .take p fresh now =>
    match s.up p with
    | [] => none
    | group :: rest =>
      let s' := { s with up := Function.update s.up p rest }
      match Wire.recv pb group with
      | none => some s'
      | some env => some ((s'.recordTaken p env ((s.broker (N.home p)).stamped fresh env)).activate
          N pb (N.home p) (.fromRouter fresh now env (N.identity p)))
  | .recv p =>
    match s.down p with
    | [] => none
    | group :: rest =>
      let s' := { s with down := Function.update s.down p rest }
      match Wire.recv pb group, p with
      | some env, .inl w => some (s'.linkReceives N w env)
      | _, _ => some s'
  | .takePeer b fresh now =>
    match s.inbound b with
    | [] => none
    | (_, env) :: rest =>
      some (activate N pb { s with inbound := Function.update s.inbound b rest } b
        (.fromPeer fresh now env))
  | .sweep b now => some (s.activate N pb b (.sweep now))
  | .broadcastStats b now => some (s.activate N pb b (.broadcastStats now))
  | .addPeer b key w => if N.owner w = b then some (s.activate N pb b (.addPeer key w)) else none
  | .removePeer b key => some (s.activate N pb b (.removePeer key))
  | .drop place i => some (s.lose place i)

def Initial : Prop := (∀ b, (s.broker b).Initial) ∧ s = { broker := s.broker }

variable {N pb s} {s' : Mesh ι ω κ} {e : Event ι ω κ}

inductive Acts (N : Network ι ω κ) (pb : Protobuf) (s : Mesh ι ω κ) :
    Event ι ω κ → Mesh ι ω κ → Prop
  | sendKey {k : κ} {env : Envelope} : Keys.isControlMessage env.key = true →
      Acts N pb s (.send k env) { s with control := push s.control (.inr k) env }
  | sendData {k : κ} {env : Envelope} : ¬ Keys.isControlMessage env.key = true →
      Acts N pb s (.send k env)
        { s with outbound := push s.outbound (.inr k) env, written := push s.written k env }
  | sendControl {p : ω ⊕ κ} {env : Envelope} {rest : List Envelope} : s.control p = env :: rest →
      Acts N pb s (.sendControl p)
        { s with control := Function.update s.control p rest
                 up := push s.up p (Wire.send pb env) }
  | sendOutbound {p : ω ⊕ κ} {env : Envelope} {rest : List Envelope} : s.outbound p = env :: rest →
      Acts N pb s (.sendOutbound p)
        { s with outbound := Function.update s.outbound p rest
                 up := push s.up p (Wire.send pb env) }
  | sendHeartbeat (p : ω ⊕ κ) :
      Acts N pb s (.sendHeartbeat p)
        { s with up := push s.up p (Wire.send pb (heartbeatEnvelope (N.identity p))) }
  | takeNothing {p : ω ⊕ κ} {fresh : Uuid} {now : Time} {group : Wire.Group}
      {rest : List Wire.Group} : s.up p = group :: rest → Wire.recv pb group = none →
      Acts N pb s (.take p fresh now) { s with up := Function.update s.up p rest }
  | take {p : ω ⊕ κ} {fresh : Uuid} {now : Time} {group : Wire.Group} {rest : List Wire.Group}
      {env : Envelope} : s.up p = group :: rest → Wire.recv pb group = some env →
      Acts N pb s (.take p fresh now)
        ((recordTaken { s with up := Function.update s.up p rest } p env
          ((s.broker (N.home p)).stamped fresh env)).activate N pb (N.home p)
            (.fromRouter fresh now env (N.identity p)))
  | recvNothing {p : ω ⊕ κ} {group : Wire.Group} {rest : List Wire.Group} :
      s.down p = group :: rest → (∀ w, p = .inl w → Wire.recv pb group = none) →
      Acts N pb s (.recv p) { s with down := Function.update s.down p rest }
  | recv {w : ω} {group : Wire.Group} {rest : List Wire.Group} {env : Envelope} :
      s.down (.inl w) = group :: rest → Wire.recv pb group = some env →
      Acts N pb s (.recv (.inl w))
        (linkReceives N { s with down := Function.update s.down (.inl w) rest } w env)
  | takePeer {b : ι} {fresh : Uuid} {now : Time} {w : ω} {env : Envelope}
      {rest : List (ω × Envelope)} : s.inbound b = (w, env) :: rest →
      Acts N pb s (.takePeer b fresh now)
        (activate N pb { s with inbound := Function.update s.inbound b rest } b
          (.fromPeer fresh now env))
  | sweep (b : ι) (now : Time) : Acts N pb s (.sweep b now) (s.activate N pb b (.sweep now))
  | broadcastStats (b : ι) (now : Time) :
      Acts N pb s (.broadcastStats b now) (s.activate N pb b (.broadcastStats now))
  | addPeer {b : ι} (key : String) {w : ω} : N.owner w = b →
      Acts N pb s (.addPeer b key w) (s.activate N pb b (.addPeer key w))
  | removePeer (b : ι) (key : String) :
      Acts N pb s (.removePeer b key) (s.activate N pb b (.removePeer key))
  | drop (place : Place ι ω κ) (i : ℕ) : Acts N pb s (.drop place i) (s.lose place i)

theorem step_acts (he : s.step N pb e = some s') : Acts N pb s e s' := by
  cases e with
  | send k env =>
    simp only [step] at he
    split_ifs at he with hk
    · cases he
      exact .sendKey hk
    · cases he
      exact .sendData hk
  | sendControl p =>
    simp only [step] at he
    split at he
    · cases he
    · next hc =>
      cases he
      exact .sendControl hc
  | sendOutbound p =>
    simp only [step] at he
    split at he
    · cases he
    · next hc =>
      cases he
      exact .sendOutbound hc
  | sendHeartbeat p =>
    cases he
    exact .sendHeartbeat p
  | take p fresh now =>
    simp only [step] at he
    split at he
    · cases he
    · next hu =>
      split at he
      · next hr =>
        cases he
        exact .takeNothing hu hr
      · next hr =>
        cases he
        exact .take hu hr
  | recv p =>
    simp only [step] at he
    split at he
    · cases he
    · next group rest hd =>
      split at he
      · next hr =>
        cases he
        exact .recv hd hr
      · next hnot =>
        cases he
        refine .recvNothing hd fun w hw => ?_
        cases hr : Wire.recv pb group with
        | none => rfl
        | some env => exact absurd hw (hnot env w hr)
  | takePeer b fresh now =>
    simp only [step] at he
    split at he
    · cases he
    · next hin =>
      cases he
      exact .takePeer hin
  | sweep b now =>
    cases he
    exact .sweep b now
  | broadcastStats b now =>
    cases he
    exact .broadcastStats b now
  | addPeer b key w =>
    simp only [step, Option.ite_none_right_eq_some, Option.some.injEq] at he
    obtain ⟨hw, rfl⟩ := he
    exact .addPeer key hw
  | removePeer b key =>
    cases he
    exact .removePeer b key
  | drop place i =>
    cases he
    exact .drop place i

/-- A step moves at most one broker, and then logs what it did. -/
theorem step_broker (he : s.step N pb e = some s') :
    (s'.broker = s.broker ∧ s'.log = s.log) ∨
    ∃ b ev, s'.broker = Function.update s.broker b ((s.broker b).step pb ev).1 ∧
      s'.log = s.log ++ [(b, ((s.broker b).step pb ev).2)] := by
  have record : ∀ (t : Mesh ι ω κ) p env st, (t.recordTaken p env st).broker = t.broker ∧
      (t.recordTaken p env st).log = t.log := by
    intro t p env st
    unfold recordTaken
    split
    · exact ⟨rfl, rfl⟩
    · split_ifs <;> exact ⟨rfl, rfl⟩
  cases step_acts he with
  | sendKey => exact .inl ⟨rfl, rfl⟩
  | sendData => exact .inl ⟨rfl, rfl⟩
  | sendControl => exact .inl ⟨rfl, rfl⟩
  | sendOutbound => exact .inl ⟨rfl, rfl⟩
  | sendHeartbeat => exact .inl ⟨rfl, rfl⟩
  | takeNothing => exact .inl ⟨rfl, rfl⟩
  | @take p fresh now group rest env =>
    refine .inr ⟨N.home p, .fromRouter fresh now env (N.identity p), ?_, ?_⟩
    · simp only [activate, (record _ _ _ _).1]
    · simp only [activate, (record _ _ _ _).1, (record _ _ _ _).2]
  | recvNothing => exact .inl ⟨rfl, rfl⟩
  | recv =>
    left
    unfold linkReceives
    dsimp only
    split_ifs <;> exact ⟨rfl, rfl⟩
  | @takePeer b fresh now w env => exact .inr ⟨b, .fromPeer fresh now env, rfl, rfl⟩
  | sweep b now => exact .inr ⟨b, .sweep now, rfl, rfl⟩
  | broadcastStats b now => exact .inr ⟨b, .broadcastStats now, rfl, rfl⟩
  | @addPeer b key w => exact .inr ⟨b, .addPeer key w, rfl, rfl⟩
  | removePeer b key => exact .inr ⟨b, .removePeer key, rfl, rfl⟩
  | drop place =>
    left
    cases place <;> exact ⟨rfl, rfl⟩

theorem history_of_reachable (h : Reachable Initial (ofFun (step N pb)) s) (b : ι) :
    Broker.History pb (s.broker b) (s.activations b) := by
  refine h.invariant (P := fun s => ∀ b, Broker.History pb (s.broker b) (s.activations b)) ?_ ?_ b
  · intro s₀ h₀ b
    have hl : s₀.activations b = [] := by
      rw [h₀.2]
      rfl
    rw [hl]
    exact .start _ (h₀.1 b)
  · intro u e u' hu hs b
    rcases step_broker hs with ⟨hb, hl⟩ | ⟨b', ev, hb, hl⟩
    · simpa only [activations, hb, hl] using hu b
    · rw [hb, activations_snoc hl]
      by_cases hbb : b' = b
      · subst hbb
        rw [Function.update_self, if_pos rfl]
        exact (hu b').step ev
      · rw [Function.update_of_ne (Ne.symm hbb), if_neg hbb, List.append_nil]
        exact hu b

def calls (s : Mesh ι ω κ) (b : ι) : List (String × Bool) :=
  (s.activations b).flatMap Effect.dedupCalls

def handed (pb : Protobuf) (s : Mesh ι ω κ) (b : ι) (clientId uuid : String) :
    List (String × Bytes × Bytes) :=
  (s.activations b).flatMap (Effect.handed pb clientId uuid)

/-- Whatever the links do, a broker accepts a message once and hands it once to each client, but not
to the one it accepted it from; the mesh as a whole sends it on at most once for each broker. -/
theorem at_most_once [Fintype ι] (h : Reachable Initial (ofFun (step N pb)) s) {u : String}
    (hu : u ≠ "")
    (hgap : ∀ b p q r v v', s.calls b = p ++ (u, v) :: (q ++ (u, v') :: r) →
      (q.filter fun c => !c.2 && c.1 != u).length < Broker.maxHistorySize) :
    (∀ b, (s.calls b).count (u, false) ≤ 1) ∧
    (∀ b c, (s.handed pb b c u).length ≤ 1) ∧
    (∀ b c, (∃ act ∈ s.activations b, .dedup (some c) u false ∈ act) → s.handed pb b c u = []) ∧
    (∀ b, ((s.activations b).filter fun act => !(Effect.flooded u act).isEmpty).length ≤ 1) ∧
    (s.log.filter fun x => Broker.transmits pb u x.2).length ≤ Fintype.card ι := by
  have hh := history_of_reachable h
  have hone : ∀ b, (s.calls b).count (u, false) ≤ 1 := fun b =>
    (hh b).answered.count_new_le_one u (hgap b)
  have htrans : ∀ b, ((s.activations b).filter (Broker.transmits pb u)).length ≤ 1 := fun b =>
    ((hh b).transmits_le hu).trans (hone b)
  refine ⟨hone, fun b c => ((hh b).handed_le hu c).trans (hone b), ?_, ?_, ?_⟩
  · rintro b c ⟨act, hact, hs⟩
    exact (hh b).not_handed_back hu (hone b) hact hs
  · intro b
    refine le_trans ?_ (htrans b)
    apply List.Sublist.length_le
    apply List.monotone_filter_right
    intro act hf
    exact (Bool.or_eq_true _ _).mpr (Or.inl hf)
  · -- no broker occurs twice among the activations that send the message on
    have hnodup : ((s.log.filter fun x => Broker.transmits pb u x.2).map Prod.fst).Nodup := by
      rw [List.nodup_iff_count_le_one]
      intro b
      refine le_trans (le_of_eq ?_) (htrans b)
      unfold activations
      rw [List.count_eq_countP, List.countP_map, List.countP_filter, List.filter_map,
        List.length_map, List.filter_filter, ← List.countP_eq_length_filter]
      refine List.countP_congr fun x _ => ?_
      simp [and_comm]
    have hle := hnodup.length_le_card
    rwa [List.length_map] at hle

/-- Two brokers that dialed each other, with a client at each of them. -/
def mutualDial : Network Bool Bool Bool where
  owner w := w
  home
    | .inl w => !w
    | .inr k => k
  identity
    | .inl false => "BrokerLink-broker-0"
    | .inl true => "BrokerLink-broker-1"
    | .inr false => "client-a"
    | .inr true => "client-b"
  identity_inj := by decide

def newsUuid : Uuid := ⟨"00000000-0000-4000-8000-000000000001", by decide⟩

def linking (w : Bool) : List (Event Bool Bool Bool) :=
  [.addPeer w "peer" w, .sendHeartbeat (.inl w), .take (.inl w) newsUuid 0, .recv (.inl w),
    .sendControl (.inl w), .take (.inl w) newsUuid 0]

def joining : List (Event Bool Bool Bool) :=
  [.sendHeartbeat (.inr true), .take (.inr true) newsUuid 0,
    .send true (createControlEnvelope Keys.subscribe "client-b" "news"), .sendControl (.inr true),
    .take (.inr true) newsUuid 0, .sendHeartbeat (.inr false), .take (.inr false) newsUuid 0]

/-- The first client publishes, and the message crosses both links. -/
def publishing : List (Event Bool Bool Bool) :=
  [.send false { header := { handlerKey := "news", topic := "news" }, payload := [1, 2] },
    .sendOutbound (.inr false), .take (.inr false) newsUuid 0, .sendOutbound (.inl false),
    .take (.inl false) newsUuid 0, .recv (.inl true), .takePeer true newsUuid 0]

def started : Mesh Bool Bool Bool :=
  { broker := fun b => { brokerId := if b then "broker-1" else "broker-0" } }

def published : Mesh Bool Bool Bool :=
  (exec (step mutualDial BrokerProto.proto3) started
    (linking false ++ linking true ++ joining ++ publishing)).get (by decide +kernel)

theorem at_most_once_news :
    published.calls true = [(newsUuid.val, false), (newsUuid.val, true)] ∧
    (published.calls true).count (newsUuid.val, false) ≤ 1 ∧
    (published.handed BrokerProto.proto3 true "client-b" newsUuid.val).length ≤ 1 := by
  have he : exec (step mutualDial BrokerProto.proto3) started
      (linking false ++ linking true ++ joining ++ publishing) = some published := by
    simp [published]
  have hr := exec_run he
  have hi : started.Initial := ⟨fun b => ⟨_, 0, rfl⟩, rfl⟩
  have hlen : ∀ b, (published.calls b).length ≤ 2 := by decide +kernel
  have h := at_most_once ⟨started, _, hi, hr⟩ newsUuid.ne_empty (by
    intro b p q r v v' hc
    have hl := congrArg List.length hc
    have hb := hlen b
    have hf := List.length_filter_le (fun c : String × Bool => !c.2 && c.1 != newsUuid.val) q
    simp only [List.length_append, List.length_cons] at hl
    simp only [Broker.maxHistorySize]
    omega)
  exact ⟨by decide +kernel, h.1 true, h.2.1 true "client-b"⟩

end Mesh

end ZmqPubSub
