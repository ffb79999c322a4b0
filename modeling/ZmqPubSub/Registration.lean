import Mathlib.Data.List.Induction
import ZmqPubSub.ConnectionManager

/-!
The static members of `ConnectionManager`: callbacks that are registered before `init` wait in a
list, and `init` hands them to the new instance in their order.
-/

namespace ZmqPubSub

open Containers

structure ClientLibrary (κ : Type*) where
  /-- `m_instance`. -/
  manager : Option (ConnectionManager κ) := none
  /-- `s_pendingMsgCallbacks`. -/
  pendingMsgCallbacks : List (String × κ × ℕ) := []

namespace ClientLibrary

variable {κ : Type*}

section

variable (l : ClientLibrary κ)

def init (clientId : String) : ClientLibrary κ :=
  match l.manager with
  | some _ => l
  | none =>
    { manager := some (l.pendingMsgCallbacks.foldl
        (fun m p => m.performRegistration p.1 p.2.1 p.2.2) { clientId := clientId }) }

def registerInternal (key : String) (callback : κ) (owner : ℕ) : ClientLibrary κ :=
  match l.manager with
  | some m => { l with manager := some (m.performRegistration key callback owner) }
  | none => { l with pendingMsgCallbacks := l.pendingMsgCallbacks ++ [(key, callback, owner)] }

def unregisterCallback (key : String) (owner : ℕ) : ClientLibrary κ :=
  match l.manager with
  -- what is pending stays pending
  | none => l
  | some m => { l with manager := some (m.performUnregistration key owner) }

inductive Call (κ : Type*)
  | registerCallback (key : String) (callback : κ) (owner : ℕ)
  | unregisterCallback (key : String) (owner : ℕ)

def call : Call κ → ClientLibrary κ
  | .registerCallback key callback owner => l.registerInternal key callback owner
  | .unregisterCallback key owner => l.unregisterCallback key owner

def handlers (key : String) : Option (List (CallbackEntry κ)) :=
  l.manager.bind fun m => m.msgHandlers.lookup key

end

/-- What a call does to an instance. -/
def perform (m : ConnectionManager κ) : Call κ → ConnectionManager κ
  | .registerCallback key callback owner => m.performRegistration key callback owner
  | .unregisterCallback key owner => m.performUnregistration key owner

/-- The registrations among some calls, as the list of pending callbacks holds them. -/
def pending (calls : List (Call κ)) : List (String × κ × ℕ) :=
  calls.filterMap fun
    | .registerCallback key callback owner => some (key, callback, owner)
    | .unregisterCallback _ _ => none

def registered (key : String) (calls : List (Call κ)) : List (CallbackEntry κ) :=
  ((pending calls).filter fun p => p.1 = key).map fun p => ⟨p.2.2, p.2.1⟩

/-- No unregistration of `key` comes after a registration of `key` under the same owner. -/
def RemovesNothing (key : String) (calls : List (Call κ)) : Prop :=
  ∀ before owner after, calls = before ++ .unregisterCallback key owner :: after →
    ∀ callback, .registerCallback key callback owner ∉ before

variable {m : ConnectionManager κ} {calls : List (Call κ)} {key : String}

theorem mem_registered {entry : CallbackEntry κ} :
    entry ∈ registered key calls ↔ .registerCallback key entry.func entry.owner ∈ calls := by
  simp only [registered, pending, List.mem_map, List.mem_filter, List.mem_filterMap,
    decide_eq_true_eq]
  constructor
  · rintro ⟨⟨k, callback, owner⟩, ⟨⟨c, hc, he⟩, rfl⟩, rfl⟩
    cases c with
    | registerCallback k' callback' owner' =>
      cases he
      exact hc
    | unregisterCallback => cases he
  · intro h
    exact ⟨(key, entry.func, entry.owner), ⟨⟨_, h, rfl⟩, rfl⟩, rfl⟩

theorem registered_register (k : String) (callback : κ) (owner : ℕ) :
    registered key (calls ++ [.registerCallback k callback owner]) =
      registered key calls ++ if k = key then [⟨owner, callback⟩] else [] := by
  by_cases hk : k = key <;> simp [registered, pending, hk]

theorem registered_unregister (k : String) (owner : ℕ) :
    registered key (calls ++ [.unregisterCallback k owner]) = registered key calls := by
  simp [registered, pending]

theorem removesNothing_register (k : String) (callback : κ) (owner : ℕ) :
    RemovesNothing key (calls ++ [.registerCallback k callback owner]) ↔
      RemovesNothing key calls := by
  constructor
  · rintro h before o after rfl
    exact h before o (after ++ [.registerCallback k callback owner]) (by simp)
  · intro h before o after he
    rcases append_singleton_eq he with ⟨-, hc⟩ | ⟨after', rfl⟩
    · cases hc
    · exact h before o after' rfl

theorem removesNothing_unregister (k : String) (owner : ℕ) :
    RemovesNothing key (calls ++ [.unregisterCallback k owner]) ↔
      RemovesNothing key calls ∧
        (k = key → ∀ entry ∈ registered key calls, entry.owner ≠ owner) := by
  constructor
  · intro h
    refine ⟨?_, ?_⟩
    · rintro before o after rfl
      exact h before o (after ++ [.unregisterCallback k owner]) (by simp)
    · rintro rfl entry he rfl
      exact h calls _ [] rfl entry.func (mem_registered.mp he)
  · rintro ⟨h, hk⟩ before o after he callback hm
    rcases append_singleton_eq he with ⟨rfl, hc⟩ | ⟨after', rfl⟩
    · cases hc
      exact hk rfl ⟨owner, callback⟩ (mem_registered.mpr hm) rfl
    · exact h before o after' rfl callback hm

theorem noEmptyEntry_foldl (h : m.NoEmptyEntry) (calls : List (Call κ)) :
    (calls.foldl perform m).NoEmptyEntry := by
  induction calls generalizing m with
  | nil => exact h
  | cons c calls ih =>
    cases c with
    | registerCallback key callback owner => exact ih (h.performRegistration key callback owner)
    | unregisterCallback key owner => exact ih (h.performUnregistration key owner)

/-- The callbacks of a fresh instance after some calls are among those that were registered, and are
all of them iff none was removed. -/
theorem callbacks_foldl (hm : m.callbacks key = []) (calls : List (Call κ)) :
    ((calls.foldl perform m).callbacks key).Sublist (registered key calls) ∧
    ((calls.foldl perform m).callbacks key = registered key calls ↔ RemovesNothing key calls) := by
  induction calls using List.reverseRecOn with
  | nil =>
    refine ⟨hm ▸ List.nil_sublist _, iff_of_true hm ?_⟩
    intro before owner after he
    simp at he
  | append_singleton calls c ih =>
    obtain ⟨hsub, hiff⟩ := ih
    rw [List.foldl_concat]
    cases c with
    | registerCallback k callback owner =>
      rw [removesNothing_register, ← hiff, registered_register, perform,
        ConnectionManager.callbacks_performRegistration]
      by_cases hk : k = key
      · subst hk
        rw [if_pos rfl, if_pos rfl]
        exact ⟨hsub.append_right _, List.append_left_inj _⟩
      · rw [if_neg (Ne.symm hk), if_neg hk, List.append_nil]
        exact ⟨hsub, Iff.rfl⟩
    | unregisterCallback k owner =>
      rw [removesNothing_unregister, ← hiff, registered_unregister, perform,
        ConnectionManager.callbacks_performUnregistration]
      by_cases hk : k = key
      · subst hk
        rw [if_pos rfl]
        have hle := List.filter_sublist (l := (calls.foldl perform m).callbacks k)
          (p := fun entry => entry.owner != owner)
        refine ⟨hle.trans hsub, fun h => ?_, fun ⟨heq, hno⟩ => ?_⟩
        · -- nothing can have been lost before, and the filter removes nothing
          have heq : (calls.foldl perform m).callbacks k = registered k calls :=
            hsub.antisymm (h ▸ hle)
          refine ⟨heq, fun _ entry he => ?_⟩
          rw [← h, List.mem_filter] at he
          simpa using he.2
        · rw [heq, List.filter_eq_self]
          intro entry he
          simpa using hno rfl entry he
      · rw [if_neg (Ne.symm hk), and_iff_left fun h => absurd h hk]
        exact ⟨hsub, Iff.rfl⟩

def callsThenInit (clientId : String) (calls : List (Call κ)) : ClientLibrary κ :=
  (calls.foldl call {}).init clientId

def initThenCalls (clientId : String) (calls : List (Call κ)) : ClientLibrary κ :=
  calls.foldl call (({} : ClientLibrary κ).init clientId)

theorem foldl_call_of_none (calls : List (Call κ)) (ps : List (String × κ × ℕ)) :
    calls.foldl call { pendingMsgCallbacks := ps } =
      { pendingMsgCallbacks := ps ++ pending calls } := by
  induction calls generalizing ps with
  | nil => simp [pending]
  | cons c calls ih =>
    cases c with
    | registerCallback key callback owner =>
      rw [List.foldl_cons, call, registerInternal, ih]
      simp [pending]
    | unregisterCallback key owner =>
      rw [List.foldl_cons, call, unregisterCallback, ih]
      simp [pending]

theorem foldl_call_of_some (calls : List (Call κ)) (m : ConnectionManager κ) :
    calls.foldl call { manager := some m } = { manager := some (calls.foldl perform m) } := by
  induction calls generalizing m with
  | nil => rfl
  | cons c calls ih =>
    cases c with
    | registerCallback key callback owner => exact ih _
    | unregisterCallback key owner => exact ih _

theorem noEmptyEntry_fresh (clientId : String) :
    ({ clientId := clientId } : ConnectionManager κ).NoEmptyEntry := by
  intro key he
  cases he

/-- Flushing the pending callbacks is performing the registrations alone. -/
theorem handlers_callsThenInit (clientId : String) (calls : List (Call κ)) (key : String) :
    (callsThenInit clientId calls).handlers key =
      if (registered key calls).isEmpty then none else some (registered key calls) := by
  let regs : List (Call κ) := (pending calls).map fun p => .registerCallback p.1 p.2.1 p.2.2
  have hpending : pending regs = pending calls := by
    simp only [regs, pending, List.filterMap_map]
    exact List.filterMap_some
  have hflush : (callsThenInit clientId calls).manager =
      some (regs.foldl perform { clientId := clientId }) := by
    have hfold : calls.foldl call {} = { pendingMsgCallbacks := pending calls } :=
      foldl_call_of_none calls []
    rw [callsThenInit, hfold, init]
    simp only [regs, List.foldl_map]
    rfl
  have hno : RemovesNothing key regs := by
    intro before owner after he callback _
    have hm : .unregisterCallback key owner ∈ regs := by simp [he]
    obtain ⟨p, -, hp⟩ := List.mem_map.mp hm
    cases hp
  have hcb :
      (regs.foldl perform { clientId := clientId }).callbacks key = registered key calls := by
    rw [(callbacks_foldl rfl regs).2.mpr hno, registered, hpending, registered]
  rw [handlers, hflush, Option.bind_some,
    (noEmptyEntry_foldl (noEmptyEntry_fresh clientId) regs).lookup_eq, hcb]

theorem handlers_initThenCalls (clientId : String) (calls : List (Call κ)) (key : String) :
    (initThenCalls clientId calls).handlers key =
      if ((calls.foldl perform { clientId := clientId }).callbacks key).isEmpty then none
      else some ((calls.foldl perform { clientId := clientId }).callbacks key) := by
  have hfold : initThenCalls clientId calls =
      { manager := some (calls.foldl perform { clientId := clientId }) } :=
    foldl_call_of_some calls { clientId := clientId }
  rw [handlers, hfold]
  exact (noEmptyEntry_foldl (noEmptyEntry_fresh clientId) calls).lookup_eq key

/-- A callback that is taken back before `init` is live after it. -/
theorem taken_back_before_init :
    (callsThenInit "client-a"
      [.registerCallback "news" () 7, .unregisterCallback "news" 7]).handlers
      "news" = some [⟨7, ()⟩] ∧
    (initThenCalls "client-a"
      [.registerCallback "news" () 7, .unregisterCallback "news" 7]).handlers
      "news" = none := ⟨rfl, rfl⟩

/-- Registering before `init` is the same as registering after it exactly when no unregistration
comes after a registration that it would undo. -/
theorem init_order_irrelevant_iff (clientId : String) (calls : List (Call κ)) :
    (∀ key, (callsThenInit clientId calls).handlers key =
      (initThenCalls clientId calls).handlers key) ↔ ∀ key, RemovesNothing key calls := by
  refine forall_congr' fun key => ?_
  have hm : ({ clientId := clientId } : ConnectionManager κ).callbacks key = [] := rfl
  rw [handlers_callsThenInit, handlers_initThenCalls, ← (callbacks_foldl hm calls).2]
  -- a list and its entry in the map determine each other
  constructor
  · intro h
    split_ifs at h with h₁ h₂
    · rw [List.isEmpty_iff.mp h₁, List.isEmpty_iff.mp h₂]
    · exact (Option.some.inj h).symm
  · intro h
    rw [h]

end ClientLibrary

end ZmqPubSub
