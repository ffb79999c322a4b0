import ZmqPubSub.ConnectionManager
import ZmqPubSub.TransitionSystem

/-!
`handleMessage` copies the callbacks of a topic under `m_mapMutex` and runs the copy after it has
released the lock. Between the copy and each call, other threads (and the callbacks themselves)
register and unregister callbacks, if they find the manager in `m_instance`. Callbacks carry the
number of their registration.
-/

namespace ZmqPubSub

open TransitionSystem

/-- The processing thread in `handleMessage`, after the copy. -/
structure Handling (κ : Type*) where
  env : Envelope
  /-- The copied callbacks that have not begun. -/
  callbacks : List (CallbackEntry κ)

/-- What `m_instance` is for one manager. -/
inductive Stage
  | absent
  /-- `init` has constructed the manager and flushes the pending callbacks. It holds
  `m_initMutex`. -/
  | starting
  | current
  /-- `shutdown` has reset `m_instance`; who holds the manager can still use it. -/
  | reset
deriving DecidableEq

structure Dispatch (κ : Type*) where
  stage : Stage := .absent
  /-- `s_pendingMsgCallbacks`, each with its key. -/
  pending : List (String × CallbackEntry (ℕ × κ)) := []
  manager : ConnectionManager (ℕ × κ)
  /-- The calls that hold the manager and have yet to unregister a callback of it. -/
  holding : List (String × ℕ) := []
  handling : Option (Handling (ℕ × κ)) := none
  /-- The key and the instance of each registration, oldest first. -/
  registrations : List (String × ℕ) := []

namespace Dispatch

variable {κ : Type*} (d : Dispatch κ)

inductive Event (κ : Type*)
  | init
  /-- One turn of the loop in `init`, or its end. -/
  | flush
  | shutdown
  | register (key : String) (callback : κ) (owner : ℕ)
  /-- `sendRequest` registers on the manager that it holds. -/
  | request (key : String) (callback : κ) (owner : ℕ)
  /-- `unregisterCallback` asks for the instance. -/
  | getInstance (key : String) (owner : ℕ)
  /-- A call that holds the manager unregisters. -/
  | unregister (key : String) (owner : ℕ)
  /-- `handleMessage` copies the callbacks of the message's topic. -/
  | copy (env : Envelope)
  /-- The next copied callback begins. -/
  | invoke
  /-- `handleMessage` returns. -/
  | finish

def enter (key : String) (entry : CallbackEntry (ℕ × κ)) : Dispatch κ :=
  { d with manager := d.manager.performRegistration key entry.func entry.owner }

def nextEntry (callback : κ) (owner : ℕ) : CallbackEntry (ℕ × κ) :=
  { owner := owner, func := (d.registrations.length, callback) }

def enroll (key : String) (callback : κ) (owner : ℕ) : Dispatch κ :=
  { d.enter key (d.nextEntry callback owner) with
    registrations := d.registrations ++ [(key, owner)] }

/-- `registerInternal` without an instance. -/
def defer (key : String) (callback : κ) (owner : ℕ) : Dispatch κ :=
  { d with
    pending := d.pending ++ [(key, d.nextEntry callback owner)]
    registrations := d.registrations ++ [(key, owner)] }

/-- `registerInternal`. -/
def register (key : String) (callback : κ) (owner : ℕ) : Dispatch κ :=
  if d.stage = .current then d.enroll key callback owner else d.defer key callback owner

def unregister (key : String) (owner : ℕ) : Dispatch κ :=
  { d with manager := d.manager.performUnregistration key owner }

def copy (env : Envelope) : Dispatch κ :=
  { d with handling := some ⟨env, d.manager.callbacks env.header.topic⟩ }

def step : Event κ → Option (Dispatch κ)
  | .init => if d.stage = .absent then some { d with stage := .starting } else none
  | .flush =>
    if d.stage = .starting then
      match d.pending with
      | [] => some { d with stage := .current }
      | (key, entry) :: rest => some { d.enter key entry with pending := rest }
    else none
  | .shutdown => if d.stage = .current then some { d with stage := .reset } else none
  | .register key callback owner =>
    if d.stage = .starting then none else some (d.register key callback owner)
  | .request key callback owner =>
    if d.stage = .current ∨ d.stage = .reset then
      some { d.enroll key callback owner with holding := d.holding ++ [(key, owner)] }
    else none
  | .getInstance key owner =>
    match d.stage with
    | .starting => none
    | .current => some { d with holding := d.holding ++ [(key, owner)] }
    -- `if (!self) return`
    | .absent | .reset => some d
  | .unregister key owner =>
    if (key, owner) ∈ d.holding then
      some { d.unregister key owner with holding := d.holding.erase (key, owner) }
    else none
  | .copy env =>
    if d.stage = .absent then none
    else
      match d.handling with
      | none => some (d.copy env)
      | some _ => none
  | .invoke =>
    match d.handling with
    | some ⟨env, _ :: rest⟩ => some { d with handling := some ⟨env, rest⟩ }
    | _ => none
  | .finish =>
    match d.handling with
    | some ⟨_, []⟩ => some { d with handling := none }
    | _ => none

def Step : Dispatch κ → Event κ → Dispatch κ → Prop := ofFun step

def Initial : Prop := ∃ manager, manager.msgHandlers = ∅ ∧ d = { manager := manager }

def Begins (n : ℕ) : Prop :=
  ∃ env entry rest, d.handling = some ⟨env, entry :: rest⟩ ∧ entry.func.1 = n

inductive Fires (d : Dispatch κ) : Event κ → Dispatch κ → Prop
  | init : d.stage = .absent → Fires d .init { d with stage := .starting }
  | flush {key : String} {entry : CallbackEntry (ℕ × κ)}
      {rest : List (String × CallbackEntry (ℕ × κ))} : d.stage = .starting →
      d.pending = (key, entry) :: rest → Fires d .flush { d.enter key entry with pending := rest }
  | flushed : d.stage = .starting → d.pending = [] → Fires d .flush { d with stage := .current }
  | shutdown : d.stage = .current → Fires d .shutdown { d with stage := .reset }
  | register (key : String) (callback : κ) (owner : ℕ) : d.stage = .current →
      Fires d (.register key callback owner) (d.enroll key callback owner)
  | defer (key : String) (callback : κ) (owner : ℕ) : d.stage = .absent ∨ d.stage = .reset →
      Fires d (.register key callback owner) (d.defer key callback owner)
  | request (key : String) (callback : κ) (owner : ℕ) : d.stage = .current ∨ d.stage = .reset →
      Fires d (.request key callback owner)
        { d.enroll key callback owner with holding := d.holding ++ [(key, owner)] }
  | found (key : String) (owner : ℕ) : d.stage = .current →
      Fires d (.getInstance key owner) { d with holding := d.holding ++ [(key, owner)] }
  | notFound (key : String) (owner : ℕ) : Fires d (.getInstance key owner) d
  | unregister (key : String) (owner : ℕ) : (key, owner) ∈ d.holding →
      Fires d (.unregister key owner)
        { d.unregister key owner with holding := d.holding.erase (key, owner) }
  | copy (env : Envelope) : d.stage ≠ .absent → d.handling = none →
      Fires d (.copy env) (d.copy env)
  | invoke {env : Envelope} {entry : CallbackEntry (ℕ × κ)}
      {rest : List (CallbackEntry (ℕ × κ))} : d.handling = some ⟨env, entry :: rest⟩ →
      Fires d .invoke { d with handling := some ⟨env, rest⟩ }
  | finish {env : Envelope} : d.handling = some ⟨env, []⟩ →
      Fires d .finish { d with handling := none }

variable {d} {d' d₁ d₂ : Dispatch κ} {e : Event κ}

theorem step_fires (h : Step d e d') : Fires d e d' := by
  change d.step e = some d' at h
  cases e with
  | init =>
    simp only [step, Option.ite_none_right_eq_some, Option.some.injEq] at h
    obtain ⟨hst, rfl⟩ := h
    exact .init hst
  | flush =>
    simp only [step] at h
    split_ifs at h with hst
    split at h
    · next hp =>
      cases h
      exact .flushed hst hp
    · next hp =>
      cases h
      exact .flush hst hp
  | shutdown =>
    simp only [step, Option.ite_none_right_eq_some, Option.some.injEq] at h
    obtain ⟨hst, rfl⟩ := h
    exact .shutdown hst
  | register key callback owner =>
    simp only [step, Option.ite_none_left_eq_some, Option.some.injEq, Dispatch.register] at h
    obtain ⟨hst, rfl⟩ := h
    split_ifs with hc
    · exact .register key callback owner hc
    · refine .defer key callback owner ?_
      cases hs : d.stage with
      | absent => exact .inl rfl
      | starting => exact absurd hs hst
      | current => exact absurd hs hc
      | reset => exact .inr rfl
  | request key callback owner =>
    simp only [step, Option.ite_none_right_eq_some, Option.some.injEq] at h
    obtain ⟨hst, rfl⟩ := h
    exact .request key callback owner hst
  | getInstance key owner =>
    simp only [step] at h
    split at h
    · cases h
    · next hst =>
      cases h
      exact .found key owner hst
    · cases h
      exact .notFound key owner
    · cases h
      exact .notFound key owner
  | unregister key owner =>
    simp only [step, Option.ite_none_right_eq_some, Option.some.injEq] at h
    obtain ⟨hmem, rfl⟩ := h
    exact .unregister key owner hmem
  | copy env =>
    simp only [step] at h
    split_ifs at h with hst
    split at h
    · next hn =>
      cases h
      exact .copy env hst hn
    · cases h
  | invoke =>
    simp only [step] at h
    split at h
    · next hs =>
      cases h
      exact .invoke hs
    · cases h
  | finish =>
    simp only [step] at h
    split at h
    · next hs =>
      cases h
      exact .finish hs
    · cases h

/-- The manager has been in `m_instance`, all of whose pending callbacks it has got. -/
def Published (d : Dispatch κ) : Prop := d.stage = .current ∨ d.stage = .reset

theorem Published.step (hd : d.Published) (h : Step d e d') : d'.Published := by
  unfold Published at hd
  cases step_fires h with
  | init hst => simp [hst] at hd
  | flush hst => simp [hst] at hd
  | flushed hst => simp [hst] at hd
  | shutdown => exact .inr rfl
  | _ => exact hd

/-- Only who has found the manager in `m_instance` holds it. -/
theorem published_of_holding (hr : Reachable Initial Step d) {x : String × ℕ}
    (hx : x ∈ d.holding) : d.Published := by
  refine hr.invariant (P := fun d => ∀ x ∈ d.holding, d.Published) ?_ ?_ x hx
  · rintro _ ⟨manager, -, rfl⟩ x hx
    cases hx
  · intro d e d' hd h x hx
    cases step_fires h with
    | request _ _ _ hst => exact hst
    | found _ _ hst => exact .inl hst
    | unregister key owner => exact (hd x (List.mem_of_mem_erase hx)).step h
    | _ => exact (hd x hx).step h

/-- The number of a callback tells the key and the instance it was registered under. -/
structure Numbered (d : Dispatch κ) : Prop where
  inMap : ∀ key, ∀ entry ∈ d.manager.callbacks key,
    d.registrations[entry.func.1]? = some (key, entry.owner)
  inCopy : ∀ env callbacks, d.handling = some ⟨env, callbacks⟩ → ∀ entry ∈ callbacks,
    d.registrations[entry.func.1]? = some (env.header.topic, entry.owner)
  inPending : ∀ key entry, (key, entry) ∈ d.pending →
    d.registrations[entry.func.1]? = some (key, entry.owner)

theorem callbacks_initial {manager : ConnectionManager (ℕ × κ)} (h : manager.msgHandlers = ∅)
    (key : String) : manager.callbacks key = [] := by
  simp [ConnectionManager.callbacks, h]

theorem Initial.numbered (h : d.Initial) : d.Numbered := by
  obtain ⟨manager, hm, rfl⟩ := h
  refine ⟨fun key entry he => ?_, by simp, by simp⟩
  rw [callbacks_initial hm] at he
  cases he

theorem registrations_of_step (h : Step d e d') {n : ℕ} {x : String × ℕ}
    (hn : d.registrations[n]? = some x) : d'.registrations[n]? = some x := by
  have hlt : n < d.registrations.length := (List.getElem?_eq_some_iff.mp hn).1
  have hgrow : ∀ y, (d.registrations ++ [y])[n]? = some x := fun y => by
    rw [List.getElem?_append_left hlt, hn]
  cases step_fires h with
  | register | defer | request => exact hgrow _
  | _ => exact hn

theorem callbacks_enter (d : Dispatch κ) (k : String) (entry : CallbackEntry (ℕ × κ))
    (key : String) : (d.enter k entry).manager.callbacks key =
      if key = k then d.manager.callbacks k ++ [entry] else d.manager.callbacks key :=
  ConnectionManager.callbacks_performRegistration k entry.func entry.owner key

theorem mem_callbacks_enter {k key : String} {new entry : CallbackEntry (ℕ × κ)}
    (he : entry ∈ (d.enter k new).manager.callbacks key) :
    entry ∈ d.manager.callbacks key ∨ (key = k ∧ entry = new) := by
  rw [callbacks_enter] at he
  split_ifs at he with hk
  · rw [List.mem_append, List.mem_singleton, ← hk] at he
    exact he.imp_right fun he => ⟨hk, he⟩
  · exact .inl he

/-- A callback of the map after a step was there before, or it was pending, or it was registered by
the step. -/
theorem mem_callbacks_of_step (h : Step d e d') {key : String} {entry : CallbackEntry (ℕ × κ)}
    (he : entry ∈ d'.manager.callbacks key) : entry ∈ d.manager.callbacks key ∨
      (d.stage = .starting ∧ (key, entry) ∈ d.pending) ∨
      (entry.func.1 = d.registrations.length ∧
        d'.registrations = d.registrations ++ [(key, entry.owner)]) := by
  cases step_fires h with
  | @flush k new rest hst hp =>
    rcases mem_callbacks_enter (d := d) he with he | ⟨rfl, rfl⟩
    · exact .inl he
    · exact .inr (.inl ⟨hst, hp ▸ List.mem_cons_self⟩)
  | register k callback owner | request k callback owner =>
    rcases mem_callbacks_enter (d := d) he with he | ⟨rfl, rfl⟩
    · exact .inl he
    · exact .inr (.inr ⟨rfl, rfl⟩)
  | unregister k owner =>
    replace he : entry ∈ (d.manager.performUnregistration k owner).callbacks key := he
    rw [ConnectionManager.callbacks_performUnregistration] at he
    split_ifs at he with hk
    · rw [← hk] at he
      exact .inl (List.mem_of_mem_filter he)
    · exact .inl he
  | _ => exact .inl he

theorem mem_pending_of_step (h : Step d e d') {key : String} {entry : CallbackEntry (ℕ × κ)}
    (he : (key, entry) ∈ d'.pending) : (key, entry) ∈ d.pending ∨
      (entry.func.1 = d.registrations.length ∧
        d'.registrations = d.registrations ++ [(key, entry.owner)]) := by
  cases step_fires h with
  | flush hst hp => exact .inl (hp ▸ List.mem_cons_of_mem _ he)
  | defer k callback owner =>
    rcases List.mem_append.mp he with he | he
    · exact .inl he
    · cases List.mem_singleton.mp he
      exact .inr ⟨rfl, rfl⟩
  | _ => exact .inl he

/-- A copy held after a step was held before it, except that its first callback may have begun;
or the step made it. -/
theorem handling_of_step (h : Step d e d') {env : Envelope}
    {callbacks : List (CallbackEntry (ℕ × κ))} (hh : d'.handling = some ⟨env, callbacks⟩) :
    ((∃ held, d.handling = some ⟨env, held⟩ ∧ callbacks ⊆ held) ∧ ∀ env', e ≠ .copy env') ∨
      callbacks = d.manager.callbacks env.header.topic := by
  cases step_fires h with
  | copy env' hst hn =>
    cases hh
    exact .inr rfl
  | invoke hs =>
    cases hh
    exact .inl ⟨⟨_, hs, List.subset_cons_self _ _⟩, by simp⟩
  | finish hs => cases hh
  | _ => exact .inl ⟨⟨callbacks, hh, fun _ hx => hx⟩, by simp⟩

theorem Numbered.step (hd : d.Numbered) (h : Step d e d') : d'.Numbered where
  inMap := by
    intro key entry he
    rcases mem_callbacks_of_step h he with hm | ⟨-, hp⟩ | ⟨hn, hr⟩
    · exact registrations_of_step h (hd.inMap key entry hm)
    · exact registrations_of_step h (hd.inPending key entry hp)
    · rw [hr, hn]
      exact List.getElem?_concat_length
  inCopy := by
    intro env callbacks hh entry he
    apply registrations_of_step h
    rcases handling_of_step h hh with ⟨⟨held, hs, hsub⟩, -⟩ | rfl
    · exact hd.inCopy env held hs entry (hsub he)
    · exact hd.inMap _ entry he
  inPending := by
    intro key entry he
    rcases mem_pending_of_step h he with hp | ⟨hn, hr⟩
    · exact registrations_of_step h (hd.inPending key entry hp)
    · rw [hr, hn]
      exact List.getElem?_concat_length

theorem numbered_of_reachable (hr : Reachable Initial Step d) : d.Numbered :=
  hr.invariant (fun _ hi => hi.numbered) fun _ _ _ hd h => hd.step h

/-- After callback `n` was unregistered in `d`: it is out of the map, and where it still waits to
begin it does so in the copy that `handleMessage` held in `d`. -/
structure Unregistered (d : Dispatch κ) (key : String) (n : ℕ) (tr : List (Event κ × Dispatch κ))
    (d₂ : Dispatch κ) : Prop where
  published : d₂.Published
  outOfMap : ∀ entry ∈ d₂.manager.callbacks key, entry.func.1 ≠ n
  heldCopy : ∀ env callbacks, d₂.handling = some ⟨env, callbacks⟩ → ∀ entry ∈ callbacks,
    entry.func.1 = n → (∃ held, d.handling = some ⟨env, held⟩ ∧ entry ∈ held) ∧
      ∀ x ∈ tr, ∀ env', x.1 ≠ .copy env'

theorem unregistered_of_unregister {key : String} {owner n : ℕ} (hd : d.Numbered)
    (hp : d.Published) (hreg : d.registrations[n]? = some (key, owner)) :
    Unregistered d key n [] { d.unregister key owner with holding := d.holding.erase (key, owner) }
    where
  published := hp
  outOfMap := by
    intro entry he hn
    replace he : entry ∈ (d.manager.performUnregistration key owner).callbacks key := he
    rw [ConnectionManager.callbacks_performUnregistration, if_pos rfl, List.mem_filter] at he
    have howner := hd.inMap key entry he.1
    rw [hn, hreg] at howner
    cases howner
    simp at he
  heldCopy := by
    intro env callbacks hh entry he _
    exact ⟨⟨callbacks, hh, he⟩, by simp⟩

theorem Unregistered.step {key : String} {owner n : ℕ} {tr : List (Event κ × Dispatch κ)}
    (hu : Unregistered d key n tr d₁) (hd : d₁.Numbered)
    (hreg : d₁.registrations[n]? = some (key, owner)) (h : Step d₁ e d₂) :
    Unregistered d key n (tr ++ [(e, d₂)]) d₂ where
  published := hu.published.step h
  outOfMap := by
    intro entry he hn
    rcases mem_callbacks_of_step h he with hm | ⟨hst, -⟩ | ⟨hlen, -⟩
    · exact hu.outOfMap entry hm hn
    · -- the pending callbacks were flushed before anybody could find the manager
      rcases hu.published with hp | hp <;> exact absurd (hst.symm.trans hp) (by decide)
    · -- a new callback has a number that no earlier registration has
      have hlt : n < d₁.registrations.length := (List.getElem?_eq_some_iff.mp hreg).1
      omega
  heldCopy := by
    intro env callbacks hh entry he hn
    rcases handling_of_step h hh with ⟨⟨held, hs, hsub⟩, hcopy⟩ | rfl
    · obtain ⟨hheld, htr⟩ := hu.heldCopy env held hs entry (hsub he) hn
      refine ⟨hheld, ?_⟩
      intro x hx env'
      rcases List.mem_append.mp hx with hx | hx
      · exact htr x hx env'
      · rw [List.mem_singleton.mp hx]
        exact hcopy env'
    · -- a copy made now would have to find it in the map under its own key
      have hkey := hd.inMap _ entry he
      rw [hn, hreg] at hkey
      cases hkey
      exact absurd hn (hu.outOfMap entry he)

/-- The call of `unregisterCallback` has found the manager. A callback that begins although it was
unregistered is one of the copy that `handleMessage` held when `performUnregistration` took the
lock, of a message with its topic; `handleMessage` has taken up no other message since. -/
theorem begins_only_from_held_copy {tr : List (Event κ × Dispatch κ)} {key : String} {owner n : ℕ}
    (hd : Reachable Initial Step d) (hreg : d.registrations[n]? = some (key, owner))
    (hu : Step d (.unregister key owner) d₁) (hr : Run Step d₁ tr d₂) (hb : d₂.Begins n) :
    (∃ env held, d.handling = some ⟨env, held⟩ ∧ env.header.topic = key ∧
      ∃ entry ∈ held, entry.func.1 = n) ∧ ∀ x ∈ tr, ∀ env, x.1 ≠ .copy env := by
  have hnum := numbered_of_reachable hd
  have hinv : (d₂.Numbered ∧ d₂.registrations[n]? = some (key, owner)) ∧
      Unregistered d key n tr d₂ := by
    refine hr.traceInvariant (P := fun tr t => (t.Numbered ∧
      t.registrations[n]? = some (key, owner)) ∧ Unregistered d key n tr t) ?_ ?_
    · refine ⟨⟨hnum.step hu, registrations_of_step hu hreg⟩, ?_⟩
      cases step_fires hu with
      | unregister _ _ hmem =>
        exact unregistered_of_unregister hnum (published_of_holding hd hmem) hreg
    · intro tr t e u _ ht h
      exact ⟨⟨ht.1.1.step h, registrations_of_step h ht.1.2⟩, ht.2.step ht.1.1 ht.1.2 h⟩
  obtain ⟨env, entry, rest, hh, hn⟩ := hb
  obtain ⟨⟨held, hheld, he⟩, hcopy⟩ := hinv.2.heldCopy env _ hh entry List.mem_cons_self hn
  have hkey := hnum.inCopy env held hheld entry he
  rw [hn, hreg] at hkey
  cases hkey
  exact ⟨⟨env, held, hheld, rfl, entry, he, hn⟩, hcopy⟩

def newsMessage : Envelope := { header := { handlerKey := "news", topic := "news" }, payload := [] }

def oneHandler (key : String) : Dispatch Unit :=
  let d : Dispatch Unit := { manager := { clientId := "client-a" } }
  { d.enter key (d.nextEntry () 7) with stage := .current, registrations := [(key, 7)] }

theorem oneHandler_reachable (key : String) : Reachable Initial Step (oneHandler key) := by
  have h : exec step ({ manager := { clientId := "client-a" } } : Dispatch Unit)
      [.register key () 7, .init, .flush, .flush] = some (oneHandler key) := rfl
  exact ⟨_, _, ⟨_, rfl, rfl⟩, exec_run h⟩

/-- `handleMessage` has copied the callback, and `unregisterCallback` has found the manager. -/
def copied : Dispatch Unit :=
  { (oneHandler "news").copy newsMessage with holding := [("news", 7)] }

theorem copied_reachable : Reachable Initial Step copied :=
  ((oneHandler_reachable "news").tail (show Step _ (.copy newsMessage) _ from rfl)).tail
    (show Step _ (.getInstance "news" 7) _ from rfl)

theorem copied_begins {d : Dispatch Unit} (h : Step copied (.unregister "news" 7) d) :
    d.Begins 0 := by
  cases h
  exact ⟨_, _, [], rfl, rfl⟩

theorem begins_after_unregister : ∃ d d₁ d₂ : Dispatch Unit, ∃ key owner n,
    Reachable Initial Step d ∧ d.registrations[n]? = some (key, owner) ∧
    Step d (.unregister key owner) d₁ ∧ d₁.Begins n ∧ Step d₁ .invoke d₂ :=
  ⟨copied, _, _, "news", 7, 0, copied_reachable, rfl, rfl, copied_begins rfl, rfl⟩

theorem begins_only_from_held_copy_news :
    ∃ env held, copied.handling = some ⟨env, held⟩ ∧ env.header.topic = "news" ∧
      ∃ entry ∈ held, entry.func.1 = 0 :=
  (begins_only_from_held_copy copied_reachable rfl
    (show Step copied (.unregister "news" 7) _ from rfl) (.nil _) (copied_begins rfl)).1

end Dispatch

end ZmqPubSub
