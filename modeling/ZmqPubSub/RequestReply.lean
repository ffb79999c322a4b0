import Mathlib.Data.List.Basic
import ZmqPubSub.Dispatch

/-!
Calls of `sendRequest` on one `ConnectionManager`, each on a thread of its own, beside the
processing thread and the threads that register and unregister callbacks of their own. `uuid i` is
what `generateUUID` returns to call `i`.
-/

namespace ZmqPubSub

open TransitionSystem

inductive RequestStage
  /-- The temporary handler is registered. -/
  | registered
  /-- The request is sent. -/
  | waiting
  /-- `wait_for` has returned: ready with a value, or a timeout. -/
  | woken (result : Option Bytes)
  /-- The temporary handler is unregistered; `some` is `true` with `outResponse`. -/
  | returned (result : Option Bytes)
deriving DecidableEq, Repr

structure RequestCall where
  requestTopic : String
  payload : Bytes
  /-- `tempInstanceKey`. -/
  owner : ℕ
  /-- The value that `set_value` stored. -/
  promise : Option Bytes := none
  stage : RequestStage := .registered
  /-- How many messages had been handled when the temporary handler was registered. -/
  registeredAt : ℕ

inductive Callback (ι κ : Type*)
  /-- The temporary handler of a call. -/
  | request (i : ι)
  | other (func : κ)

structure RequestReply (ι κ : Type*) where
  dispatch : Dispatch (Callback ι κ)
  calls : ι → Option RequestCall
  /-- The messages `handleMessage` has taken up, oldest first. -/
  handled : List Envelope := []
  /-- What the registrations and unregistrations of the others alone make of `m_msgHandlers`. -/
  others : ConnectionManager (ℕ × Callback ι κ)

namespace RequestCall

variable (c : RequestCall)

def replyTopic (u : Uuid) : String := c.requestTopic ++ u.val

def result : Option Bytes :=
  match c.stage with
  | .woken r => r
  | .returned r => r
  | _ => none

def installed : Bool :=
  match c.stage with
  | .returned _ => false
  | _ => true

/-- The messages handled since the registration whose topic is the reply topic. -/
def replies (u : Uuid) (handled : List Envelope) : List Envelope :=
  (handled.drop c.registeredAt).filter fun env => env.header.topic = c.replyTopic u

/-- The first of them carries `p`. -/
def Answered (u : Uuid) (handled : List Envelope) (p : Bytes) : Prop :=
  ∃ env, (c.replies u handled).head? = some env ∧ env.payload = p

end RequestCall

namespace RequestReply

variable {ι κ : Type*}

inductive Event (ι κ : Type*)
  | register (key : String) (callback : κ) (owner : ℕ)
  | unregister (key : String) (owner : ℕ)
  | status (connected : Bool)
  | copy (env : Envelope)
  | invoke
  | finish
  /-- Call `i` registers its temporary handler. -/
  | request (i : ι) (requestTopic : String) (payload : Bytes) (owner : ℕ)
  | send (i : ι)
  /-- `wait_for` returns. -/
  | wake (i : ι)
  /-- Call `i` unregisters its temporary handler and returns. -/
  | cleanup (i : ι)

section Steps

variable [DecidableEq ι]

/-- A callback runs. A second `set_value` throws, and the exception is dropped. -/
def invoked (calls : ι → Option RequestCall) (func : Callback ι κ) (data : Bytes) :
    ι → Option RequestCall :=
  match func with
  | .request i =>
    Function.update calls i ((calls i).map fun c => { c with promise := c.promise <|> some data })
  | .other _ => calls

variable (uuid : ι → Uuid) (s : RequestReply ι κ)

def request (i : ι) (requestTopic : String) (payload : Bytes) (owner : ℕ) : RequestReply ι κ :=
  let c : RequestCall := { requestTopic, payload, owner, registeredAt := s.handled.length }
  { s with
    dispatch := s.dispatch.enroll (c.replyTopic (uuid i)) (.request i) owner
    calls := Function.update s.calls i (some c) }

def send (i : ι) (c : RequestCall) : RequestReply ι κ :=
  let m := s.dispatch.manager
  let request := m.requestEnvelope c.requestTopic (c.replyTopic (uuid i)) c.payload
  { s with
    dispatch := { s.dispatch with manager := m.sendRawEnvelope request }
    calls := Function.update s.calls i (some { c with stage := .waiting }) }

def wake (i : ι) (c : RequestCall) : RequestReply ι κ :=
  { s with calls := Function.update s.calls i (some { c with stage := .woken c.promise }) }

def cleanup (i : ι) (c : RequestCall) (r : Option Bytes) : RequestReply ι κ :=
  { s with
    dispatch := s.dispatch.unregister (c.replyTopic (uuid i)) c.owner
    calls := Function.update s.calls i (some { c with stage := .returned r }) }

def step : Event ι κ → Option (RequestReply ι κ)
  | .register key callback owner => some { s with
      dispatch := s.dispatch.enroll key (.other callback) owner
      others := s.others.performRegistration key
        (s.dispatch.registrations.length, .other callback) owner }
  | .unregister key owner => some { s with
      dispatch := s.dispatch.unregister key owner
      others := s.others.performUnregistration key owner }
  | .status connected => some { s with
      dispatch := { s.dispatch with manager := s.dispatch.manager.statusHandler connected } }
  | .copy env =>
    match s.dispatch.handling with
    | none => some { s with dispatch := s.dispatch.copy env, handled := s.handled ++ [env] }
    | some _ => none
  | .invoke =>
    match s.dispatch.handling with
    | some ⟨env, entry :: rest⟩ => some { s with
        dispatch := { s.dispatch with handling := some ⟨env, rest⟩ }
        calls := invoked s.calls entry.func.2 env.payload }
    | _ => none
  | .finish =>
    match s.dispatch.handling with
    | some ⟨_, []⟩ => some { s with dispatch := { s.dispatch with handling := none } }
    | _ => none
  | .request i requestTopic payload owner =>
    match s.calls i with
    | none => some (s.request uuid i requestTopic payload owner)
    | some _ => none
  | .send i =>
    match s.calls i with
    | some c => if c.stage = .registered then some (s.send uuid i c) else none
    | none => none
  | .wake i =>
    match s.calls i with
    | some c => if c.stage = .waiting then some (s.wake i c) else none
    | none => none
  | .cleanup i =>
    match s.calls i with
    | some c =>
      match c.stage with
      | .woken r => some (s.cleanup uuid i c r)
      | _ => none
    | none => none

def Step : RequestReply ι κ → Event ι κ → RequestReply ι κ → Prop := ofFun (step uuid)

def Initial : Prop :=
  (s.dispatch.manager.msgHandlers = ∅ ∧ s.dispatch.handling = none ∧
    s.dispatch.registrations = []) ∧
  (∀ i, s.calls i = none) ∧ s.handled = [] ∧ s.others.msgHandlers = ∅

/-- The key ends with none of the identifiers. -/
def ForeignKey (uuid : ι → Uuid) (key : String) : Prop := ∀ i t, key ≠ t ++ (uuid i).val

/-- The others use keys of their own. -/
def Foreign (uuid : ι → Uuid) (_ : RequestReply ι κ) : Event ι κ → Prop
  | .register key _ _ => ForeignKey uuid key
  | .unregister key _ => ForeignKey uuid key
  | _ => True

inductive Fires (uuid : ι → Uuid) (s : RequestReply ι κ) : Event ι κ → RequestReply ι κ → Prop
  | register (key : String) (callback : κ) (owner : ℕ) :
      Fires uuid s (.register key callback owner) { s with
        dispatch := s.dispatch.enroll key (.other callback) owner
        others := s.others.performRegistration key
          (s.dispatch.registrations.length, .other callback) owner }
  | unregister (key : String) (owner : ℕ) :
      Fires uuid s (.unregister key owner) { s with
        dispatch := s.dispatch.unregister key owner
        others := s.others.performUnregistration key owner }
  | status (connected : Bool) :
      Fires uuid s (.status connected) { s with
        dispatch := { s.dispatch with manager := s.dispatch.manager.statusHandler connected } }
  | copy (env : Envelope) : s.dispatch.handling = none →
      Fires uuid s (.copy env)
        { s with dispatch := s.dispatch.copy env, handled := s.handled ++ [env] }
  | invoke {env : Envelope} {entry : CallbackEntry (ℕ × Callback ι κ)}
      {rest : List (CallbackEntry (ℕ × Callback ι κ))} :
      s.dispatch.handling = some ⟨env, entry :: rest⟩ →
      Fires uuid s .invoke { s with
        dispatch := { s.dispatch with handling := some ⟨env, rest⟩ }
        calls := invoked s.calls entry.func.2 env.payload }
  | finish {env : Envelope} : s.dispatch.handling = some ⟨env, []⟩ →
      Fires uuid s .finish { s with dispatch := { s.dispatch with handling := none } }
  | request {i : ι} (requestTopic : String) (payload : Bytes) (owner : ℕ) : s.calls i = none →
      Fires uuid s (.request i requestTopic payload owner)
        (s.request uuid i requestTopic payload owner)
  | send {i : ι} {c : RequestCall} : s.calls i = some c → c.stage = .registered →
      Fires uuid s (.send i) (s.send uuid i c)
  | wake {i : ι} {c : RequestCall} : s.calls i = some c → c.stage = .waiting →
      Fires uuid s (.wake i) (s.wake i c)
  | cleanup {i : ι} {c : RequestCall} {r : Option Bytes} : s.calls i = some c →
      c.stage = .woken r → Fires uuid s (.cleanup i) (s.cleanup uuid i c r)

variable {uuid s} {s' : RequestReply ι κ} {e : Event ι κ}

theorem step_fires (h : Step uuid s e s') : Fires uuid s e s' := by
  change s.step uuid e = some s' at h
  cases e with
  | register key callback owner =>
    cases h
    exact .register key callback owner
  | unregister key owner =>
    cases h
    exact .unregister key owner
  | status connected =>
    cases h
    exact .status connected
  | copy env =>
    simp only [step] at h
    split at h
    · next hn =>
      cases h
      exact .copy env hn
    · cases h
  | invoke =>
    simp only [step] at h
    split at h
    · next hs =>
      cases h
      exact .invoke hs
    · cases h
  | finish =>
    simp only [step] at h
    split at h
    · next hs =>
      cases h
      exact .finish hs
    · cases h
  | request i requestTopic payload owner =>
    simp only [step] at h
    split at h
    · next hn =>
      cases h
      exact .request requestTopic payload owner hn
    · cases h
  | send i =>
    simp only [step] at h
    split at h
    · next hc =>
      split_ifs at h with hstage
      cases h
      exact .send hc hstage
    · cases h
  | wake i =>
    simp only [step] at h
    split at h
    · next hc =>
      split_ifs at h with hstage
      cases h
      exact .wake hc hstage
    · cases h
  | cleanup i =>
    simp only [step] at h
    split at h
    · next hc =>
      split at h
      · next hstage =>
        cases h
        exact .cleanup hc hstage
      · cases h
    · cases h

end Steps

variable {uuid : ι → Uuid}

/-- A key with one of the identifiers at its end tells which one it is. -/
theorem eq_of_append_uuid {t t' : String} {u u' : Uuid} (h : t ++ u.val = t' ++ u'.val) :
    u = u' := by
  have hl : u.val.toList.length = u'.val.toList.length := by
    rw [String.length_toList, String.length_toList, u.property, u'.property]
  have he : t.toList ++ u.val.toList = t'.toList ++ u'.val.toList := by
    rw [← String.toList_append, ← String.toList_append, h]
  exact Subtype.ext (String.toList_inj.mp (List.append_inj' he hl).2)

/-- The reply topic and the instance of the handler that a call has installed. -/
def handler (u : Uuid) (c : Option RequestCall) : Option (String × ℕ) :=
  c.bind fun c => if c.installed then some (c.replyTopic u, c.owner) else none

def handlers (uuid : ι → Uuid) (calls : ι → Option RequestCall) : ι → Option (String × ℕ) :=
  fun i => handler (uuid i) (calls i)

theorem handlers_eq_some {calls : ι → Option RequestCall} {i : ι} {x : String × ℕ}
    (h : handlers uuid calls i = some x) : ∃ c, calls i = some c ∧ c.installed = true ∧
      x = (c.replyTopic (uuid i), c.owner) := by
  unfold handlers handler at h
  cases hc : calls i with
  | none => simp [hc] at h
  | some c =>
    rw [hc, Option.bind_some] at h
    split_ifs at h with hin
    exact ⟨c, rfl, hin, (Option.some.inj h).symm⟩

theorem handlers_of_installed {calls : ι → Option RequestCall} {i : ι} {c : RequestCall}
    (hc : calls i = some c) (hin : c.installed = true) :
    handlers uuid calls i = some (c.replyTopic (uuid i), c.owner) := by
  simp [handlers, handler, hc, hin]

theorem handlers_update [DecidableEq ι] (calls : ι → Option RequestCall) (i : ι)
    (c : Option RequestCall) :
    handlers uuid (Function.update calls i c) =
      Function.update (handlers uuid calls) i (handler (uuid i) c) := by
  funext j
  by_cases hj : j = i
  · subst hj
    simp [handlers]
  · simp [handlers, hj]

theorem handlers_update_self [DecidableEq ι] {calls : ι → Option RequestCall} {i : ι}
    {c : Option RequestCall} (h : handler (uuid i) c = handler (uuid i) (calls i)) :
    handlers uuid (Function.update calls i c) = handlers uuid calls := by
  rw [handlers_update, h]
  exact Function.update_eq_self i _

/-- The map is the others' map with one entry more for each installed handler. -/
structure Mapped (uuid : ι → Uuid) (m others : ConnectionManager (ℕ × Callback ι κ))
    (hs : ι → Option (String × ℕ)) : Prop where
  topics : ∀ i t o, hs i = some (t, o) → ∃ r, t = r ++ (uuid i).val
  own : ∀ i t o, hs i = some (t, o) → ∃ n, m.msgHandlers.lookup t = some [⟨o, (n, .request i)⟩]
  rest : ∀ key, (∀ i o, hs i ≠ some (key, o)) →
    m.msgHandlers.lookup key = others.msgHandlers.lookup key
  foreign : ∀ key entries, others.msgHandlers.lookup key = some entries → ForeignKey uuid key ∧
    ∀ entry ∈ entries, ∃ f, entry.func.2 = .other f

namespace Mapped

variable {m others : ConnectionManager (ℕ × Callback ι κ)} {hs : ι → Option (String × ℕ)}

theorem ne_of_foreign (hM : Mapped uuid m others hs) {key : String} (hk : ForeignKey uuid key)
    (i : ι) (o : ℕ) : hs i ≠ some (key, o) := by
  intro hi
  obtain ⟨r, hr⟩ := hM.topics i key o hi
  exact hk i r hr

theorem lookup_others (hM : Mapped uuid m others hs) (i : ι) (r : String) :
    others.msgHandlers.lookup (r ++ (uuid i).val) = none := by
  cases hl : others.msgHandlers.lookup (r ++ (uuid i).val) with
  | none => rfl
  | some entries => exact absurd rfl ((hM.foreign _ entries hl).1 i r)

theorem congr {m' : ConnectionManager (ℕ × Callback ι κ)} (hM : Mapped uuid m others hs)
    (h : m'.msgHandlers = m.msgHandlers) : Mapped uuid m' others hs where
  topics := hM.topics
  own := by
    rw [h]
    exact hM.own
  rest := by
    rw [h]
    exact hM.rest
  foreign := hM.foreign

theorem register (hM : Mapped uuid m others hs) {key : String} (hk : ForeignKey uuid key) (n : ℕ)
    (callback : κ) (owner : ℕ) :
    Mapped uuid (m.performRegistration key (n, .other callback) owner)
      (others.performRegistration key (n, .other callback) owner) hs where
  topics := hM.topics
  own := by
    intro i t o hi
    have hne : t ≠ key := fun h => hM.ne_of_foreign hk i o (h ▸ hi)
    rw [ConnectionManager.lookup_performRegistration, if_neg hne]
    exact hM.own i t o hi
  rest := by
    intro k hfree
    rw [ConnectionManager.lookup_performRegistration, ConnectionManager.lookup_performRegistration]
    unfold ConnectionManager.callbacks
    rw [hM.rest k hfree, hM.rest key (hM.ne_of_foreign hk)]
  foreign := by
    intro k entries hl
    rw [ConnectionManager.lookup_performRegistration] at hl
    split_ifs at hl with hkey
    · cases hl
      refine ⟨hkey ▸ hk, ?_⟩
      intro entry he
      rcases List.mem_append.mp he with he | he
      · obtain ⟨old, hold, hmem⟩ := ConnectionManager.mem_callbacks.mp he
        exact (hM.foreign key old hold).2 entry hmem
      · rw [List.mem_singleton.mp he]
        exact ⟨callback, rfl⟩
    · exact hM.foreign k entries hl

theorem unregister (hM : Mapped uuid m others hs) {key : String} (hk : ForeignKey uuid key)
    (owner : ℕ) :
    Mapped uuid (m.performUnregistration key owner) (others.performUnregistration key owner)
      hs where
  topics := hM.topics
  own := by
    intro i t o hi
    have hne : t ≠ key := fun h => hM.ne_of_foreign hk i o (h ▸ hi)
    rw [ConnectionManager.lookup_performUnregistration, if_neg hne]
    exact hM.own i t o hi
  rest := by
    intro k hfree
    rw [ConnectionManager.lookup_performUnregistration,
      ConnectionManager.lookup_performUnregistration, hM.rest k hfree,
      hM.rest key (hM.ne_of_foreign hk)]
  foreign := by
    intro k entries hl
    rw [ConnectionManager.lookup_performUnregistration] at hl
    split_ifs at hl with hkey
    · obtain ⟨old, hold, hrest⟩ := Option.bind_eq_some_iff.mp hl
      dsimp only at hrest
      split_ifs at hrest
      cases hrest
      refine ⟨hkey ▸ hk, ?_⟩
      intro entry he
      exact (hM.foreign key old hold).2 entry (List.mem_of_mem_filter he)
    · exact hM.foreign k entries hl

/-- `sendRequest` registers under a topic that nobody else has. -/
theorem install [DecidableEq ι] (hu : Function.Injective uuid) (hM : Mapped uuid m others hs)
    {i : ι} (hi : hs i = none) (n : ℕ) (r : String) (owner : ℕ) :
    Mapped uuid (m.performRegistration (r ++ (uuid i).val) (n, .request i) owner) others
      (Function.update hs i (some (r ++ (uuid i).val, owner))) where
  topics := by
    intro j t o hj
    rw [Function.update_apply] at hj
    split_ifs at hj with hji
    · cases hj
      exact ⟨r, by rw [hji]⟩
    · exact hM.topics j t o hj
  own := by
    intro j t o hj
    rw [Function.update_apply] at hj
    -- a handler under this topic would be that of call `i`, which has none yet
    have hfree : ∀ k o', hs k ≠ some (r ++ (uuid i).val, o') := by
      intro k o' hk
      obtain ⟨r', hr'⟩ := hM.topics k _ o' hk
      obtain rfl : i = k := hu (eq_of_append_uuid hr')
      rw [hi] at hk
      cases hk
    split_ifs at hj with hji
    · cases hj
      have hnone : m.callbacks (r ++ (uuid i).val) = [] := by
        rw [ConnectionManager.callbacks, hM.rest _ hfree, hM.lookup_others]
        rfl
      refine ⟨n, ?_⟩
      rw [ConnectionManager.lookup_performRegistration, if_pos rfl, hnone, hji]
      rfl
    · have hne : t ≠ r ++ (uuid i).val := fun h => hfree j o (h ▸ hj)
      rw [ConnectionManager.lookup_performRegistration, if_neg hne]
      exact hM.own j t o hj
  rest := by
    intro key hfree
    have hne : key ≠ r ++ (uuid i).val := by
      intro h
      apply hfree i owner
      rw [Function.update_self, h]
    rw [ConnectionManager.lookup_performRegistration, if_neg hne]
    apply hM.rest
    intro j o hj
    apply hfree j o
    rwa [Function.update_of_ne]
    rintro rfl
    rw [hi] at hj
    cases hj
  foreign := hM.foreign

/-- `sendRequest` unregisters what it registered, and the topic goes with it. -/
theorem remove [DecidableEq ι] (hu : Function.Injective uuid) (hM : Mapped uuid m others hs)
    {i : ι} {t : String} {owner : ℕ} (hi : hs i = some (t, owner)) :
    Mapped uuid (m.performUnregistration t owner) others (Function.update hs i none) where
  topics := by
    intro j t' o hj
    rw [Function.update_apply] at hj
    split_ifs at hj
    exact hM.topics j t' o hj
  own := by
    intro j t' o hj
    rw [Function.update_apply] at hj
    split_ifs at hj with hji
    have hne : t' ≠ t := by
      rintro rfl
      obtain ⟨r, hr⟩ := hM.topics i t' owner hi
      obtain ⟨r', hr'⟩ := hM.topics j t' o hj
      exact hji (hu (eq_of_append_uuid (hr'.symm.trans hr)))
    rw [ConnectionManager.lookup_performUnregistration, if_neg hne]
    exact hM.own j t' o hj
  rest := by
    intro key hfree
    obtain ⟨n, hn⟩ := hM.own i t owner hi
    rw [ConnectionManager.lookup_performUnregistration]
    split_ifs with hkey
    · -- the call's own entry was the only one, so the topic goes
      obtain ⟨r, hr⟩ := hM.topics i t owner hi
      rw [hn, hkey, hr, hM.lookup_others]
      simp
    · apply hM.rest
      intro j o hj
      apply hfree j o
      rwa [Function.update_of_ne]
      rintro rfl
      rw [hi] at hj
      cases hj
      exact hkey rfl
  foreign := hM.foreign

end Mapped

/-- The copy holds the temporary handler of call `i`. -/
def Carries (callbacks : List (CallbackEntry (ℕ × Callback ι κ))) (i : ι) : Prop :=
  ∃ entry ∈ callbacks, entry.func.2 = .request i

theorem Mapped.carries_own {m others : ConnectionManager (ℕ × Callback ι κ)}
    {hs : ι → Option (String × ℕ)} (hM : Mapped uuid m others hs) {i : ι} {t : String} {o : ℕ}
    (hi : hs i = some (t, o)) : Carries (m.callbacks t) i := by
  obtain ⟨n, hn⟩ := hM.own i t o hi
  refine ⟨⟨o, (n, .request i)⟩, ?_, rfl⟩
  exact ConnectionManager.mem_callbacks.mpr ⟨_, hn, List.mem_singleton_self _⟩

theorem Mapped.installed_of_carries {m others : ConnectionManager (ℕ × Callback ι κ)}
    {hs : ι → Option (String × ℕ)} (hM : Mapped uuid m others hs) {i : ι} {key : String}
    (h : Carries (m.callbacks key) i) : ∃ o, hs i = some (key, o) := by
  obtain ⟨entry, he, hf⟩ := h
  obtain ⟨entries, hl, hmem⟩ := ConnectionManager.mem_callbacks.mp he
  by_cases hown : ∃ j o, hs j = some (key, o)
  · obtain ⟨j, o, hj⟩ := hown
    obtain ⟨n, hn⟩ := hM.own j key o hj
    rw [hl] at hn
    cases hn
    rw [List.mem_singleton.mp hmem] at hf
    cases hf
    exact ⟨o, hj⟩
  · have hrest := hM.rest key fun j o hj => hown ⟨j, o, hj⟩
    rw [hl] at hrest
    obtain ⟨f, hother⟩ := (hM.foreign key entries hrest.symm).2 entry hmem
    rw [hf] at hother
    cases hother

theorem replies_append {c : RequestCall} {u : Uuid} {handled : List Envelope}
    (h : c.registeredAt ≤ handled.length) (env : Envelope) :
    c.replies u (handled ++ [env]) =
      c.replies u handled ++ if env.header.topic = c.replyTopic u then [env] else [] := by
  unfold RequestCall.replies
  rw [List.drop_append_of_le_length h, List.filter_append, List.filter_singleton]
  simp

/-- Later messages do not change which one came first. -/
theorem answered_append {c : RequestCall} {u : Uuid} {handled : List Envelope} {p : Bytes}
    (h : c.registeredAt ≤ handled.length) (ha : c.Answered u handled p) (env : Envelope) :
    c.Answered u (handled ++ [env]) p := by
  obtain ⟨first, hf, hp⟩ := ha
  refine ⟨first, ?_, hp⟩
  rw [replies_append h, List.head?_append, hf]
  rfl

/-- What holds of a call between its registration and its return, and after. -/
structure Tracked (u : Uuid) (handled : List Envelope)
    (handling : Option (Handling (ℕ × Callback ι κ))) (i : ι) (c : RequestCall) : Prop where
  since : c.registeredAt ≤ handled.length
  kept : ∀ p, c.promise = some p → c.Answered u handled p
  /-- A handler that is still to run does so for the first reply, or the promise is settled. -/
  held : ∀ env callbacks, handling = some ⟨env, callbacks⟩ → Carries callbacks i →
    c.promise = none → c.replies u handled = [env]
  /-- While the handler is installed no reply passes it by. -/
  missed : c.installed = true → c.promise = none → c.replies u handled ≠ [] →
    ∃ env callbacks, handling = some ⟨env, callbacks⟩ ∧ Carries callbacks i
  result : ∀ p, c.result = some p → c.Answered u handled p

namespace Tracked

variable {u : Uuid} {handled : List Envelope} {i : ι} {c : RequestCall} {env : Envelope}

/-- A call that has just registered its handler. -/
theorem begun {handling : Option (Handling (ℕ × Callback ι κ))}
    (hat : c.registeredAt = handled.length)
    (hp : c.promise = none) (hs : c.stage = .registered)
    (hc : ∀ env callbacks, handling = some ⟨env, callbacks⟩ → ¬ Carries callbacks i) :
    Tracked u handled handling i c := by
  have hres : c.result = none := by
    simp [RequestCall.result, hs]
  constructor
  · exact Nat.le_of_eq hat
  · intro p hsome
    rw [hp] at hsome
    cases hsome
  · intro env callbacks hh hcar
    exact absurd hcar (hc env callbacks hh)
  · intro _ _ hne
    refine absurd ?_ hne
    simp [RequestCall.replies, hat]
  · intro p hsome
    rw [hres] at hsome
    cases hsome

theorem copy (h : Tracked (κ := κ) u handled none i c)
    {callbacks : List (CallbackEntry (ℕ × Callback ι κ))}
    (hc : Carries callbacks i ↔ c.installed = true ∧ env.header.topic = c.replyTopic u) :
    Tracked u (handled ++ [env]) (some ⟨env, callbacks⟩) i c := by
  -- nothing is held before the copy, so an unsettled promise has seen no reply
  have hnone : c.installed = true → c.promise = none → c.replies u handled = [] := by
    intro hin hp
    by_contra hne
    obtain ⟨_, _, hh, _⟩ := h.missed hin hp hne
    cases hh
  constructor
  · rw [List.length_append]
    exact Nat.le_add_right_of_le h.since
  · intro p hp
    exact answered_append h.since (h.kept p hp) env
  · intro env' callbacks' hh hcar hp
    cases hh
    obtain ⟨hin, ht⟩ := hc.mp hcar
    rw [replies_append h.since, hnone hin hp, if_pos ht]
    rfl
  · intro hin hp hne
    rw [replies_append h.since, hnone hin hp] at hne
    refine ⟨env, callbacks, rfl, hc.mpr ⟨hin, ?_⟩⟩
    by_contra ht
    rw [if_neg ht] at hne
    exact hne rfl
  · intro p hp
    exact answered_append h.since (h.result p hp) env

variable {entry : CallbackEntry (ℕ × Callback ι κ)} {rest : List (CallbackEntry (ℕ × Callback ι κ))}

theorem passed (h : Tracked u handled (some ⟨env, entry :: rest⟩) i c)
    (hne : entry.func.2 ≠ .request i) : Tracked u handled (some ⟨env, rest⟩) i c where
  since := h.since
  kept := h.kept
  held := by
    intro env' callbacks hh hcar
    cases hh
    obtain ⟨x, hx, hf⟩ := hcar
    exact h.held env _ rfl ⟨x, List.mem_cons_of_mem _ hx, hf⟩
  missed := by
    intro hin hp hr
    obtain ⟨env', callbacks, hh, x, hx, hf⟩ := h.missed hin hp hr
    cases hh
    refine ⟨env, rest, rfl, x, ?_, hf⟩
    rcases List.mem_cons.mp hx with rfl | hx
    · exact absurd hf hne
    · exact hx
  result := h.result

/-- The call's own handler runs: the promise is settled, now or before. -/
theorem fulfilled (h : Tracked u handled (some ⟨env, entry :: rest⟩) i c)
    (he : entry.func.2 = .request i) :
    Tracked u handled (some ⟨env, rest⟩) i
      { c with promise := c.promise <|> some env.payload } := by
  have hsome : (c.promise <|> some env.payload) ≠ none := by
    cases c.promise with
    | none => simp
    | some p => simp
  constructor
  · exact h.since
  · intro p hp
    cases hc : c.promise with
    | some q =>
      apply h.kept p
      simpa [hc] using hp
    | none =>
      -- the first value: the copy that carries the handler was made for the first reply
      have hr := h.held env _ rfl ⟨entry, List.mem_cons_self, he⟩ hc
      refine ⟨env, ?_, by simpa [hc] using hp⟩
      show (c.replies u handled).head? = some env
      rw [hr]
      rfl
  · intro _ _ _ _ hp
    exact absurd hp hsome
  · intro _ hp
    exact absurd hp hsome
  · exact h.result

theorem finish (h : Tracked (κ := κ) u handled (some ⟨env, []⟩) i c) :
    Tracked (κ := κ) u handled none i c where
  since := h.since
  kept := h.kept
  held := by
    intro _ _ hh
    cases hh
  missed := by
    intro hin hp hr
    obtain ⟨_, _, hh, x, hx, _⟩ := h.missed hin hp hr
    cases hh
    cases hx
  result := h.result

theorem moveTo {handling : Option (Handling (ℕ × Callback ι κ))}
    (h : Tracked u handled handling i c) {stage : RequestStage}
    (hin : { c with stage := stage }.installed = true → c.installed = true)
    (hres : ∀ p, { c with stage := stage }.result = some p → c.result = some p ∨
      c.promise = some p) :
    Tracked u handled handling i { c with stage := stage } where
  since := h.since
  kept := h.kept
  held := h.held
  missed := fun hi => h.missed (hin hi)
  result := by
    intro p hp
    rcases hres p hp with hr | hr
    · exact h.result p hr
    · exact h.kept p hr

end Tracked

structure Correlated (uuid : ι → Uuid) (s : RequestReply ι κ) : Prop where
  mapped : Mapped uuid s.dispatch.manager s.others (handlers uuid s.calls)
  tracked : ∀ i c, s.calls i = some c →
    Tracked (uuid i) s.handled s.dispatch.handling i c
  known : ∀ env callbacks, s.dispatch.handling = some ⟨env, callbacks⟩ → ∀ i,
    Carries callbacks i → ∃ c, s.calls i = some c

section Runs

variable {s s' : RequestReply ι κ}

theorem Initial.correlated (h : s.Initial) : s.Correlated uuid := by
  obtain ⟨⟨hm, hh, -⟩, hc, -, ho⟩ := h
  have hnone : ∀ i, handlers uuid s.calls i = none := by
    intro i
    simp [handlers, handler, hc i]
  constructor
  · constructor
    · intro i t o hi
      simp [hnone i] at hi
    · intro i t o hi
      simp [hnone i] at hi
    · intro key _
      rw [hm, ho]
    · intro key entries hl
      simp [ho] at hl
  · intro i c hi
    simp [hc i] at hi
  · intro env callbacks hs
    simp [hh] at hs

theorem Correlated.copy (h : s.Correlated uuid) (hn : s.dispatch.handling = none)
    (env : Envelope) : Correlated uuid
      { s with dispatch := s.dispatch.copy env, handled := s.handled ++ [env] } where
  mapped := h.mapped
  tracked := by
    intro i c hi
    have ht := h.tracked i c hi
    rw [hn] at ht
    apply ht.copy
    constructor
    · intro hcar
      obtain ⟨o, ho⟩ := h.mapped.installed_of_carries hcar
      obtain ⟨c', hc', hin, hx⟩ := handlers_eq_some ho
      obtain rfl : c = c' := Option.some.inj (hi.symm.trans hc')
      exact ⟨hin, congrArg Prod.fst hx⟩
    · -- an installed handler is in every copy made for its topic
      rintro ⟨hin, htopic⟩
      rw [htopic]
      exact h.mapped.carries_own (handlers_of_installed hi hin)
  known := by
    intro env' callbacks hh i hcar
    cases hh
    obtain ⟨o, ho⟩ := h.mapped.installed_of_carries hcar
    obtain ⟨c, hc, -⟩ := handlers_eq_some ho
    exact ⟨c, hc⟩

variable [DecidableEq ι] {e : Event ι κ}

theorem update_eq_some {calls : ι → Option RequestCall} {i j : ι} {c d : RequestCall}
    (h : Function.update calls i (some c) j = some d) :
    (j = i ∧ c = d) ∨ (j ≠ i ∧ calls j = some d) := by
  rw [Function.update_apply] at h
  split_ifs at h with hji
  · exact .inl ⟨hji, Option.some.inj h⟩
  · exact .inr ⟨hji, h⟩

theorem exists_update {calls : ι → Option RequestCall} {j : ι} (i : ι) (c : RequestCall)
    (h : ∃ d, calls j = some d) : ∃ d, Function.update calls i (some c) j = some d := by
  by_cases hji : j = i
  · exact ⟨c, by rw [hji, Function.update_self]⟩
  · rwa [Function.update_of_ne hji]

/-- One call changes, in a way that concerns neither the map nor the copy. -/
theorem Correlated.update (h : s.Correlated uuid) {m : ConnectionManager (ℕ × Callback ι κ)} {i : ι}
    {c c' : RequestCall} (hi : s.calls i = some c)
    (hm : Mapped uuid m s.others (handlers uuid (Function.update s.calls i (some c'))))
    (ht : Tracked (uuid i) s.handled s.dispatch.handling i c') :
    Correlated uuid { s with
      dispatch := { s.dispatch with manager := m }
      calls := Function.update s.calls i (some c') } where
  mapped := hm
  tracked := by
    intro j d hj
    rcases update_eq_some hj with ⟨rfl, rfl⟩ | ⟨-, hj⟩
    · exact ht
    · exact h.tracked j d hj
  known := by
    intro env callbacks hs j hcar
    exact exists_update i c' (h.known env callbacks hs j hcar)

/-- A copied handler belongs to a call, and every call sees the copy shrink. -/
theorem Correlated.invoke (h : s.Correlated uuid) {env : Envelope}
    {entry : CallbackEntry (ℕ × Callback ι κ)} {rest : List (CallbackEntry (ℕ × Callback ι κ))}
    (hh : s.dispatch.handling = some ⟨env, entry :: rest⟩) : Correlated uuid { s with
      dispatch := { s.dispatch with handling := some ⟨env, rest⟩ }
      calls := invoked s.calls entry.func.2 env.payload } := by
  have htr := h.tracked
  rw [hh] at htr
  have hknown : ∀ i, Carries rest i → ∃ c, s.calls i = some c := by
    rintro i ⟨x, hx, hf⟩
    exact h.known env _ hh i ⟨x, List.mem_cons_of_mem _ hx, hf⟩
  cases hf : entry.func.2 with
  | other f =>
    refine ⟨h.mapped, ?_, ?_⟩
    · intro i c hi
      apply (htr i c hi).passed
      rw [hf]
      simp
    · intro env' callbacks hr i hcar
      cases hr
      exact hknown i hcar
  | request i =>
    obtain ⟨c, hc⟩ := h.known env _ hh i ⟨entry, List.mem_cons_self, hf⟩
    have hcalls : invoked s.calls (.request i : Callback ι κ) env.payload =
        Function.update s.calls i (some { c with promise := c.promise <|> some env.payload }) := by
      simp [invoked, hc]
    rw [hcalls]
    refine ⟨?_, ?_, ?_⟩
    · rw [handlers_update_self]
      · exact h.mapped
      · rw [hc]
        rfl
    · intro j d hj
      rcases update_eq_some hj with ⟨rfl, rfl⟩ | ⟨hji, hj⟩
      · exact (htr j c hc).fulfilled hf
      · apply (htr j d hj).passed
        rw [hf]
        intro heq
        cases heq
        exact hji rfl
    · intro env' callbacks hr j hcar
      cases hr
      exact exists_update i _ (hknown j hcar)

theorem Correlated.request (hu : Function.Injective uuid) (h : s.Correlated uuid) {i : ι}
    (hn : s.calls i = none) (requestTopic : String) (payload : Bytes) (owner : ℕ) :
    Correlated uuid (s.request uuid i requestTopic payload owner) where
  mapped := by
    have hin : handlers uuid s.calls i = none := by
      simp [handlers, handler, hn]
    show Mapped uuid _ _ (handlers uuid (Function.update s.calls i _))
    rw [handlers_update]
    exact h.mapped.install hu hin s.dispatch.registrations.length requestTopic owner
  tracked := by
    intro j d hj
    rcases update_eq_some hj with ⟨rfl, rfl⟩ | ⟨-, hj⟩
    · apply Tracked.begun rfl rfl rfl
      intro env callbacks hh hcar
      obtain ⟨c, hc⟩ := h.known env callbacks hh j hcar
      rw [hn] at hc
      cases hc
    · exact h.tracked j d hj
  known := by
    intro env callbacks hh j hcar
    exact exists_update i _ (h.known env callbacks hh j hcar)

theorem Correlated.step (hu : Function.Injective uuid) (h : s.Correlated uuid)
    (hs : guarded (Foreign uuid) (Step uuid) s e s') : s'.Correlated uuid := by
  obtain ⟨hforeign, hstep⟩ := hs
  cases step_fires hstep with
  | register key callback owner =>
    exact ⟨h.mapped.register hforeign _ callback owner, h.tracked, h.known⟩
  | unregister key owner =>
    exact ⟨h.mapped.unregister hforeign owner, h.tracked, h.known⟩
  | status connected =>
    exact ⟨h.mapped.congr (ConnectionManager.msgHandlers_statusHandler connected), h.tracked,
      h.known⟩
  | copy env hn => exact h.copy hn env
  | invoke hh => exact h.invoke hh
  | finish hh =>
    have htr := h.tracked
    rw [hh] at htr
    refine ⟨h.mapped, fun i c hi => (htr i c hi).finish, ?_⟩
    intro env' callbacks hr
    cases hr
  | request requestTopic payload owner hn => exact h.request hu hn requestTopic payload owner
  | @send i c hc hstage =>
    apply h.update hc
    · rw [handlers_update_self]
      · apply h.mapped.congr
        exact ConnectionManager.msgHandlers_sendRawEnvelope _
      · rw [hc]
        simp [handler, RequestCall.installed, RequestCall.replyTopic, hstage]
    · apply (h.tracked i c hc).moveTo
      · simp [RequestCall.installed, hstage]
      · simp [RequestCall.result]
  | @wake i c hc hstage =>
    apply h.update hc
    · rw [handlers_update_self]
      · exact h.mapped
      · rw [hc]
        simp [handler, RequestCall.installed, RequestCall.replyTopic, hstage]
    · apply (h.tracked i c hc).moveTo
      · simp [RequestCall.installed, hstage]
      · intro p hp
        exact .inr hp
  | @cleanup i c r hc hstage =>
    apply h.update hc
    · have hin : c.installed = true := by
        simp [RequestCall.installed, hstage]
      rw [handlers_update]
      exact h.mapped.remove hu (handlers_of_installed hc hin)
    · apply (h.tracked i c hc).moveTo
      · simp [RequestCall.installed]
      · intro p hp
        left
        simpa [RequestCall.result, hstage] using hp

/-- The reply topics are pairwise distinct; a call that returns true does so with the payload of the
first message, of those handled since its registration, whose topic is its own reply topic; and
once all calls have returned, the map is what the others alone have made of it. -/
theorem replies_correlated (hu : Function.Injective uuid)
    (hr : Reachable Initial (guarded (Foreign uuid) (Step uuid)) s) :
    (∀ i j c c', s.calls i = some c → s.calls j = some c' → i ≠ j →
      c.replyTopic (uuid i) ≠ c'.replyTopic (uuid j)) ∧
    (∀ i c p, s.calls i = some c → c.stage = .returned (some p) →
      ∃ env, (s.handled.drop c.registeredAt).find?
        (fun env => env.header.topic = c.replyTopic (uuid i)) = some env ∧ env.payload = p) ∧
    ((∀ i c, s.calls i = some c → ∃ r, c.stage = .returned r) →
      ∀ key, s.dispatch.manager.msgHandlers.lookup key = s.others.msgHandlers.lookup key) := by
  have hcor : s.Correlated uuid :=
    hr.invariant (fun _ hi => hi.correlated) fun _ _ _ h hs => h.step hu hs
  refine ⟨?_, ?_, ?_⟩
  · intro i j c c' _ _ hij heq
    exact hij (hu (eq_of_append_uuid heq))
  · intro i c p hi hstage
    have hres : c.result = some p := by
      simp [RequestCall.result, hstage]
    obtain ⟨env, he, hp⟩ := (hcor.tracked i c hi).result p hres
    refine ⟨env, ?_, hp⟩
    rwa [RequestCall.replies, List.head?_filter] at he
  · intro hall key
    apply hcor.mapped.rest
    intro i o hi
    obtain ⟨c, hc, hin, -⟩ := handlers_eq_some hi
    obtain ⟨r, hstage⟩ := hall i c hc
    simp [RequestCall.installed, hstage] at hin

end Runs

def echoUuid : Bool → Uuid
  | false => ⟨"00000000-0000-4000-8000-000000000007", by decide⟩
  | true => ⟨"00000000-0000-4000-8000-000000000008", by decide⟩

def echoReply : Envelope :=
  let topic := "echo" ++ (echoUuid true).val
  { header := { handlerKey := topic, senderId := "client-b", topic := topic }, payload := [9] }

def idle : RequestReply Bool Unit :=
  { dispatch := { manager := { clientId := "client-a" } }
    calls := fun _ => none
    others := { clientId := "client-a" } }

def echoEvents : List (Event Bool Unit) :=
  [.register "news" () 7, .request false "echo" [1] 1, .request true "echo" [2] 2, .send true,
    .send false, .copy echoReply, .wake false, .invoke, .finish, .wake true, .cleanup false,
    .cleanup true]

def answered : RequestReply Bool Unit :=
  (exec (step echoUuid) idle echoEvents).get (by decide +kernel)

theorem echoUuid_injective : Function.Injective echoUuid := by
  have hne : (echoUuid false).val ≠ (echoUuid true).val := by decide
  intro i j h
  cases i with
  | false =>
    cases j with
    | false => rfl
    | true => exact absurd (congrArg Subtype.val h) hne
  | true =>
    cases j with
    | false => exact absurd (congrArg Subtype.val h).symm hne
    | true => rfl

theorem answered_reachable :
    Reachable Initial (guarded (Foreign echoUuid) (Step echoUuid)) answered := by
  refine ⟨idle, _, ⟨⟨rfl, rfl, rfl⟩, fun _ => rfl, rfl, rfl⟩, exec_guarded ?_
    (show exec (step echoUuid) idle echoEvents = some answered by simp [answered])⟩
  have hnews : ForeignKey echoUuid "news" := by
    intro i t h
    have hl := congrArg String.length h
    rw [String.length_append, (echoUuid i).property] at hl
    have hnews : "news".length = 4 := by decide
    omega
  have hall : ∀ e ∈ echoEvents, ∀ s, Foreign echoUuid s e := by
    simp [echoEvents, Foreign, hnews]
  intro x hx
  exact hall x.2 (List.of_mem_zip hx).2 x.1

theorem replies_correlated_echo :
    (answered.calls true).map RequestCall.stage = some (.returned (some [9])) ∧
    (answered.calls false).map RequestCall.stage = some (.returned none) ∧
    ∀ key, answered.dispatch.manager.msgHandlers.lookup key =
      answered.others.msgHandlers.lookup key := by
  have htrue : (answered.calls true).map RequestCall.stage = some (.returned (some [9])) := by
    decide +kernel
  have hfalse : (answered.calls false).map RequestCall.stage = some (.returned none) := by
    decide +kernel
  refine ⟨htrue, hfalse, ?_⟩
  apply (replies_correlated echoUuid_injective answered_reachable).2.2
  intro i c hc
  cases i with
  | true => exact ⟨some [9], by simpa [hc] using htrue⟩
  | false => exact ⟨none, by simpa [hc] using hfalse⟩

end RequestReply

end ZmqPubSub
