import ZmqPubSub.BrokerClients

/-!
`sendToClient` does not block: the ROUTER socket accepts a message, refuses it because the client's
pipe is full, or fails because the client cannot be routed to. The broker with the outcome of each
send as an input, and a log of the clients it inserts into `m_clients` and of the sends that the
socket accepts.
-/

namespace ZmqPubSub

open Containers TransitionSystem Broker

/-- What becomes of the identity frame, which gates the frames behind it. -/
inductive SendOutcome
  | accepted
  | refused
  | unroutable
deriving DecidableEq

inductive Note
  | inserted (clientId : String)
  | sent (clientId : String) (headerBytes payload : Bytes)
deriving DecidableEq

/-- `sendToClient`: a refused identity frame ends the call, and the exception of an unroutable one
is swallowed. -/
def sendToClient (outcome : SendOutcome) (clientId : String) (headerBytes payload : Bytes) :
    Option Note :=
  match outcome with
  | .accepted => some (.sent clientId headerBytes payload)
  | .refused => none
  | .unroutable => none

structure RouterLog (ω : Type*) where
  broker : Broker ω
  log : List Note := []

namespace RouterLog

variable {ω : Type*}

/-- An input of the broker thread, with what becomes of each send that it leads to. -/
abbrev Event (ω : Type*) := Broker.Event ω × (ℕ → SendOutcome)

def inserted (b b' : Broker ω) : List String := b'.clients.keys.filter fun c => c ∉ b.clients

def accepted (outcome : ℕ → SendOutcome) (effects : List (Effect ω)) : List Note :=
  (Effect.clientSends effects).zipIdx.filterMap fun x =>
    sendToClient (outcome x.2) x.1.1 x.1.2.1 x.1.2.2

def step (pb : Protobuf) (s : RouterLog ω) (e : Event ω) : RouterLog ω :=
  let (broker, effects) := s.broker.step pb e.1
  -- the entry is made before anything is sent, and a send that fails does not undo it
  { broker := broker
    log := s.log ++ (inserted s.broker broker).map .inserted ++ accepted e.2 effects }

def Initial (s : RouterLog ω) : Prop := s.broker.Initial ∧ s.log = []

def Step (pb : Protobuf) (s : RouterLog ω) (e : Event ω) (s' : RouterLog ω) : Prop :=
  s' = s.step pb e

/-- The socket has accepted a RESET for `c` since `c` was last inserted. -/
def ResetSince (pb : Protobuf) (c : String) (log : List Note) : Prop :=
  ∃ before after, log = before ++ .sent c (Wire.encodeHeader pb resetMsg) [] :: after ∧
    .inserted c ∉ after

def ResetAccepted (s : RouterLog ω) : Event ω → Prop
  | (.fromRouter _ _ env identity, outcome) =>
    identity ∉ s.broker.clients → env.key ≠ Keys.disconnect → outcome 0 = .accepted
  | _ => True

variable {pb : Protobuf} {s : RouterLog ω} {c : String}

theorem clientSends_of_new {b : Broker ω} (h : b.WellFormed) {e : Broker.Event ω}
    (hold : c ∉ b.clients) (hnew : c ∈ (b.step pb e).1.clients) :
    (∃ fresh now env, e = .fromRouter fresh now env c ∧ env.key ≠ Keys.disconnect) ∧
    Effect.clientSends (b.step pb e).2 = [(c, Wire.encodeHeader pb resetMsg, [])] := by
  by_cases hs : e.sender = some c
  swap
  · rcases @step_of_others ω pb b h e c hs with ⟨hc, -⟩ | ⟨-, hc, -⟩
    · exact absurd (hc.mp hnew) hold
    · exact absurd hnew hc
  cases e with
  | fromRouter fresh now env identity =>
    obtain rfl : identity = c := Option.some.inj hs
    have hkey : env.key ≠ Keys.disconnect := by
      intro hd
      have hm := (mem_clients_processFromRouter fresh now env identity identity).mp hnew
      rw [if_pos hd] at hm
      exact hm.2 rfl
    refine ⟨⟨fresh, now, env, rfl, hkey⟩, ?_⟩
    have hkey' : ¬ env.header.handlerKey = Keys.disconnect := hkey
    obtain ⟨b₀, hr, hc, -⟩ := @processFromRouter_eq ω pb b fresh now env identity
    rw [← hc] at hold
    simp [Broker.step, hr, processMessage, processLocal, hkey', hold, Effect.clientSends]
  | _ => cases hs

theorem ResetSince.append {log notes : List Note} (h : ResetSince pb c log)
    (hn : .inserted c ∉ notes) : ResetSince pb c (log ++ notes) := by
  obtain ⟨before, after, rfl, ha⟩ := h
  refine ⟨before, after ++ notes, by simp, ?_⟩
  rw [List.mem_append, not_or]
  exact ⟨ha, hn⟩

theorem inserted_notMem_accepted (outcome : ℕ → SendOutcome) (effects : List (Effect ω)) :
    .inserted c ∉ accepted outcome effects := by
  rw [accepted, List.mem_filterMap]
  rintro ⟨x, -, hx⟩
  unfold sendToClient at hx
  split at hx <;> cases hx

theorem resetSince_step (hw : s.broker.WellFormed)
    (h : ∀ c ∈ s.broker.clients, ResetSince pb c s.log) {e : Event ω} (he : s.ResetAccepted e)
    (hc : c ∈ (s.step pb e).broker.clients) : ResetSince pb c (s.step pb e).log := by
  obtain ⟨e, outcome⟩ := e
  have hacc := @inserted_notMem_accepted ω c outcome (s.broker.step pb e).2
  by_cases hold : c ∈ s.broker.clients
  · -- known before the step, so not inserted by it
    refine ((h c hold).append ?_).append hacc
    simp [inserted, hold]
  · obtain ⟨⟨fresh, now, env, rfl, hkey⟩, hsends⟩ := clientSends_of_new hw hold hc
    have houtcome : outcome 0 = .accepted := he hold hkey
    have hsent : accepted outcome (s.broker.step pb (.fromRouter fresh now env c)).2 =
        [.sent c (Wire.encodeHeader pb resetMsg) []] := by
      simp [accepted, hsends, sendToClient, houtcome]
    exact ⟨_, [], congrArg (s.log ++ _ ++ ·) hsent, List.not_mem_nil⟩

def newcomer : RouterLog Unit := { broker := { brokerId := "broker-1" } }

def heartbeat (outcome : SendOutcome) : Event Unit :=
  (.fromRouter ⟨"00000000-0000-4000-8000-00000000000b", rfl⟩ 0 (heartbeatEnvelope "client-a")
    "client-a", fun _ => outcome)

/-- The client's pipe is full when the RESET is sent. From then on its heartbeats are acknowledged
and it is not asked for its subscriptions again. -/
theorem known_without_reset :
    ∃ s tr, newcomer.Initial ∧ Run (Step BrokerProto.proto3) newcomer tr s ∧
      tr.map (fun x => (x.1.2 0)) = [.refused, .accepted] ∧ "client-a" ∈ s.broker.clients ∧
      s.log = [.inserted "client-a",
        .sent "client-a" (Wire.encodeHeader BrokerProto.proto3 ackMsg) []] ∧
      ¬ ResetSince BrokerProto.proto3 "client-a" s.log := by
  have hlog : ((newcomer.step BrokerProto.proto3 (heartbeat .refused)).step BrokerProto.proto3
      (heartbeat .accepted)).log = [.inserted "client-a",
        .sent "client-a" (Wire.encodeHeader BrokerProto.proto3 ackMsg) []] := by decide +kernel
  refine ⟨_, _, ⟨⟨_, 0, rfl⟩, rfl⟩, ((Run.nil _).snoc (e := heartbeat .refused) rfl).snoc
    (e := heartbeat .accepted) rfl, rfl, by decide +kernel, hlog, ?_⟩
  rintro ⟨before, after, h, -⟩
  have hmem : Note.sent "client-a" (Wire.encodeHeader BrokerProto.proto3 resetMsg) [] ∈
      before ++ .sent "client-a" (Wire.encodeHeader BrokerProto.proto3 resetMsg) [] :: after :=
    List.mem_append_right _ List.mem_cons_self
  rw [← h, hlog] at hmem
  exact absurd hmem (by decide +kernel)

/-- As long as the socket accepts the RESET for each new client, every client in the table has got
one since it was inserted. -/
theorem known_with_reset {s₀ : RouterLog ω} {tr : List (Event ω × RouterLog ω)} (h₀ : s₀.Initial)
    (hr : Run (guarded ResetAccepted (Step pb)) s₀ tr s) (hc : c ∈ s.broker.clients) :
    ResetSince pb c s.log := by
  refine (hr.invariant (P := fun s => s.broker.WellFormed ∧
    ∀ c ∈ s.broker.clients, ResetSince pb c s.log) ⟨wellFormed_initial h₀.1, ?_⟩ ?_).2 c hc
  · obtain ⟨⟨id, t, hb⟩, -⟩ := h₀
    rw [hb]
    exact fun c hc => absurd hc (AList.notMem_empty c)
  · rintro t e _ ⟨hw, ht⟩ ⟨he, rfl⟩
    exact ⟨hw.step e.1, fun c hc => resetSince_step hw ht he hc⟩

theorem known_with_reset_newcomer :
    ∃ s tr, Run (guarded ResetAccepted (Step BrokerProto.proto3)) newcomer tr s ∧
      "client-a" ∈ s.broker.clients ∧ ResetSince BrokerProto.proto3 "client-a" s.log := by
  have hr : Run (guarded ResetAccepted (Step BrokerProto.proto3)) newcomer _ _ :=
    (Run.nil _).snoc (e := heartbeat .accepted) ⟨fun _ _ => rfl, rfl⟩
  have hc : "client-a" ∈
      (newcomer.step BrokerProto.proto3 (heartbeat .accepted)).broker.clients := by decide +kernel
  exact ⟨_, _, hr, hc, known_with_reset ⟨⟨_, 0, rfl⟩, rfl⟩ hr hc⟩

end RouterLog

end ZmqPubSub
