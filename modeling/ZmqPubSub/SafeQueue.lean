import Mathlib.Logic.Function.Basic
import ZmqPubSub.CondVar
import ZmqPubSub.TransitionSystem

/-!
`SafeQueue` of `safequeue.h`, shared by any number of threads. Each critical section under
`m_mutex` is one step; a call that has to wait takes another step when its thread comes back. What
the queue is for is said by the bounded queue `Fifo`, which it refines.
-/

namespace ZmqPubSub

open TransitionSystem

namespace SafeQueue

/-- What a step returns to its caller: nothing yet, or the result of the call. -/
inductive Outcome (α : Type*)
  | silent
  | push (value : α) (ok : Bool)
  | pop (value : Option α)
  | tryPop (value : Option α)
  | stop
deriving DecidableEq, Repr

namespace Outcome

variable {α : Type*}

def accepted : Outcome α → List α
  | .push x true => [x]
  | _ => []

def handed : Outcome α → List α
  | .pop (some x) => [x]
  | .tryPop (some x) => [x]
  | _ => []

end Outcome

/-- A call that waits, with the arguments it will go on with. -/
inductive Call (α : Type*)
  | push (value : α) (timed : Bool)
  | pop
deriving DecidableEq, Repr

/-- Where a notification happens, `wakes` is the thread it reaches. -/
inductive Event (α τ : Type*)
  | push (t : τ) (value : α) (timed : Bool) (wakes : Option τ)
  | pop (t : τ) (wakes : Option τ)
  | tryPop (t : τ) (wakes : Option τ)
  | stop (t : τ)
  /-- A spurious wakeup, or the timeout of a timed `push`. -/
  | wake (t : τ)
  /-- A waiting call has the lock again. -/
  | retry (t : τ) (timedOut : Bool) (wakes : Option τ)
deriving DecidableEq, Repr

end SafeQueue

/-- A first-in first-out queue that can be closed. -/
structure Fifo (α : Type*) where
  content : List α
  closed : Bool

namespace Fifo

open SafeQueue

variable {α : Type*}

inductive Step (maxSize : ℕ) : Fifo α → Outcome α → Fifo α → Prop
  | silent (f : Fifo α) : Step maxSize f .silent f
  | push {l : List α} (x : α) : l.length < maxSize →
      Step maxSize ⟨l, false⟩ (.push x true) ⟨l ++ [x], false⟩
  | refuse (f : Fifo α) (x : α) : Step maxSize f (.push x false) f
  | pop (x : α) (l : List α) (closed : Bool) :
      Step maxSize ⟨x :: l, closed⟩ (.pop (some x)) ⟨l, closed⟩
  | tryPop (x : α) (l : List α) (closed : Bool) :
      Step maxSize ⟨x :: l, closed⟩ (.tryPop (some x)) ⟨l, closed⟩
  | drained : Step maxSize ⟨[], true⟩ (.pop none) ⟨[], true⟩
  | nothing (closed : Bool) : Step maxSize ⟨[], closed⟩ (.tryPop none) ⟨[], closed⟩
  | stop (f : Fifo α) : Step maxSize f .stop { f with closed := true }

variable {maxSize : ℕ} {f f' : Fifo α} {o : Outcome α}

theorem Step.account (h : Step maxSize f o f') :
    f.content ++ o.accepted = o.handed ++ f'.content := by
  cases h <;> simp [Outcome.accepted, Outcome.handed]

theorem Step.bounded (h : Step maxSize f o f') (hf : f.content.length ≤ maxSize) :
    f'.content.length ≤ maxSize := by
  cases h with
  | push x hl =>
    rw [List.length_append]
    exact hl
  | pop | tryPop => exact Nat.le_trans (Nat.le_succ _) hf
  | _ => exact hf

theorem Step.closed_iff (h : Step maxSize f o f') :
    f'.closed = true ↔ f.closed = true ∨ o = .stop := by
  cases h <;> simp

theorem Step.of_refused {x : α} (h : Step maxSize f (.push x false) f') : f' = f := by
  cases h
  rfl

theorem Step.open_of_accepted {x : α} (h : Step maxSize f (.push x true) f') :
    f.closed = false := by
  cases h
  rfl

theorem Step.of_drained (h : Step maxSize f (.pop none) f') : f = ⟨[], true⟩ := by
  cases h
  rfl

end Fifo

structure SafeQueue (α τ : Type*) where
  maxSize : ℕ := 5000
  queue : List α := []
  stopped : Bool := false
  condFull : CondVar τ := {}
  condEmpty : CondVar τ := {}
  /-- The calls that are waiting. -/
  calls : τ → Option (SafeQueue.Call α) := fun _ => none

namespace SafeQueue

variable {α τ : Type*} [DecidableEq τ]

section

variable (q : SafeQueue α τ)

def done (t : τ) : SafeQueue α τ := { q with calls := Function.update q.calls t none }

/-- Both versions of `push`, from the check of their wait on. The timed one gives up if its time is
over and there is still no room. -/
def attemptPush (t : τ) (value : α) (timed timedOut : Bool) (wakes : Option τ) :
    Option (Outcome α × SafeQueue α τ) :=
  if q.queue.length < q.maxSize ∨ q.stopped then
    if q.stopped then some (.push value false, q.done t)
    else
      (q.condEmpty.notifyOne wakes).map fun condEmpty =>
        (.push value true, { q.done t with queue := q.queue ++ [value], condEmpty := condEmpty })
  else if timed && timedOut then some (.push value false, q.done t)
  else
    some (.silent, { q with condFull := q.condFull.wait t,
                            calls := Function.update q.calls t (some (.push value timed)) })

def attemptPop (t : τ) (wakes : Option τ) : Option (Outcome α × SafeQueue α τ) :=
  match q.queue with
  | x :: rest =>
    (q.condFull.notifyOne wakes).map fun condFull =>
      (.pop (some x), { q.done t with queue := rest, condFull := condFull })
  | [] =>
    if q.stopped then some (.pop none, q.done t)
    else
      some (.silent, { q with condEmpty := q.condEmpty.wait t,
                              calls := Function.update q.calls t (some .pop) })

def tryPop (wakes : Option τ) : Option (Outcome α × SafeQueue α τ) :=
  match q.queue with
  | [] => some (.tryPop none, q)
  | x :: rest =>
    (q.condFull.notifyOne wakes).map fun condFull =>
      (.tryPop (some x), { q with queue := rest, condFull := condFull })

def stop : SafeQueue α τ :=
  { q with stopped := true, condFull := q.condFull.notifyAll, condEmpty := q.condEmpty.notifyAll }

/-- A thread is in at most one call. -/
def step : Event α τ → Option (Outcome α × SafeQueue α τ)
  | .push t value timed wakes =>
    if (q.calls t).isNone then q.attemptPush t value timed false wakes else none
  | .pop t wakes => if (q.calls t).isNone then q.attemptPop t wakes else none
  | .tryPop t wakes => if (q.calls t).isNone then q.tryPop wakes else none
  | .stop t => if (q.calls t).isNone then some (.stop, q.stop) else none
  | .wake t =>
    match q.calls t with
    | some (.push _ _) => (q.condFull.wake t).map fun c => (.silent, { q with condFull := c })
    | some .pop => (q.condEmpty.wake t).map fun c => (.silent, { q with condEmpty := c })
    | none => none
  | .retry t timedOut wakes =>
    match q.calls t with
    | some (.push value timed) =>
      (q.condFull.resume t).bind fun c =>
        attemptPush { q with condFull := c } t value timed timedOut wakes
    | some .pop =>
      (q.condEmpty.resume t).bind fun c => attemptPop { q with condEmpty := c } t wakes
    | none => none

end

def Step (q : SafeQueue α τ) (a : Event α τ × Outcome α) (q' : SafeQueue α τ) : Prop :=
  q.step a.1 = some (a.2, q')

/-- The values whose `push` returned true, in the order in which the pushes took effect. -/
def accepted (tr : List ((Event α τ × Outcome α) × SafeQueue α τ)) : List α :=
  tr.flatMap fun a => a.1.2.accepted

def handed (tr : List ((Event α τ × Outcome α) × SafeQueue α τ)) : List α :=
  tr.flatMap fun a => a.1.2.handed

/-- The queue as its users see it. -/
def fifo (q : SafeQueue α τ) : Fifo α := ⟨q.queue, q.stopped⟩

section

variable {q q' : SafeQueue α τ} {o : Outcome α} {t : τ} {x : α} {timed timedOut : Bool}
  {wakes : Option τ} {e : Event α τ}

theorem attemptPush_cases (h : q.attemptPush t x timed timedOut wakes = some (o, q')) :
    (o = .push x false ∧ q' = q.done t ∧ (q.stopped = true ∨ q.maxSize ≤ q.queue.length)) ∨
    (o = .push x true ∧ q.stopped = false ∧ q.queue.length < q.maxSize ∧
      ∃ c, q.condEmpty.notifyOne wakes = some c ∧
        q' = { q.done t with queue := q.queue ++ [x], condEmpty := c }) ∨
    (o = .silent ∧ q.stopped = false ∧ q.maxSize ≤ q.queue.length ∧
      q' = { q with condFull := q.condFull.wait t,
                    calls := Function.update q.calls t (some (.push x timed)) }) := by
  unfold attemptPush at h
  split_ifs at h with hw hs ht
  · cases h
    exact .inl ⟨rfl, rfl, .inl hs⟩
  · obtain ⟨c, hc, hq⟩ := Option.map_eq_some_iff.mp h
    cases hq
    have hs' : q.stopped = false := Bool.eq_false_iff.mpr hs
    exact .inr (.inl ⟨rfl, hs', hw.resolve_right hs, c, hc, rfl⟩)
  · cases h
    exact .inl ⟨rfl, rfl, .inr (Nat.le_of_not_lt fun hl => hw (.inl hl))⟩
  · cases h
    have hs : q.stopped = false := Bool.eq_false_iff.mpr fun hs => hw (.inr hs)
    exact .inr (.inr ⟨rfl, hs, Nat.le_of_not_lt fun hl => hw (.inl hl), rfl⟩)

theorem attemptPop_cases (h : q.attemptPop t wakes = some (o, q')) :
    (∃ x rest c, q.queue = x :: rest ∧ q.condFull.notifyOne wakes = some c ∧
      o = .pop (some x) ∧ q' = { q.done t with queue := rest, condFull := c }) ∨
    (q.queue = [] ∧ q.stopped = true ∧ o = .pop none ∧ q' = q.done t) ∨
    (q.queue = [] ∧ q.stopped = false ∧ o = .silent ∧
      q' = { q with condEmpty := q.condEmpty.wait t,
                    calls := Function.update q.calls t (some .pop) }) := by
  unfold attemptPop at h
  split at h
  · next x rest hq =>
    obtain ⟨c, hc, he⟩ := Option.map_eq_some_iff.mp h
    cases he
    exact .inl ⟨x, rest, c, hq, hc, rfl, rfl⟩
  · next hq =>
    split_ifs at h with hs
    · cases h
      exact .inr (.inl ⟨hq, hs, rfl, rfl⟩)
    · cases h
      exact .inr (.inr ⟨hq, Bool.eq_false_iff.mpr hs, rfl, rfl⟩)

theorem tryPop_cases (h : q.tryPop wakes = some (o, q')) :
    (q.queue = [] ∧ o = .tryPop none ∧ q' = q) ∨
    (∃ x rest c, q.queue = x :: rest ∧ q.condFull.notifyOne wakes = some c ∧
      o = .tryPop (some x) ∧ q' = { q with queue := rest, condFull := c }) := by
  unfold tryPop at h
  split at h
  · next hq =>
    cases h
    exact .inl ⟨hq, rfl, rfl⟩
  · next x rest hq =>
    obtain ⟨c, hc, he⟩ := Option.map_eq_some_iff.mp h
    cases he
    exact .inr ⟨x, rest, c, hq, hc, rfl, rfl⟩

/-- A step is one of the critical sections, entered by a new call or by one that waited. -/
inductive Fires (q : SafeQueue α τ) (o : Outcome α) (q' : SafeQueue α τ) : Event α τ → Prop
  | push {t : τ} {x : α} {timed : Bool} {wakes : Option τ} :
      q.attemptPush t x timed false wakes = some (o, q') → Fires q o q' (.push t x timed wakes)
  | retryPush {t : τ} {x : α} {timed timedOut : Bool} {wakes : Option τ} {c : CondVar τ} :
      q.condFull.resume t = some c →
      attemptPush { q with condFull := c } t x timed timedOut wakes = some (o, q') →
      Fires q o q' (.retry t timedOut wakes)
  | pop {t : τ} {wakes : Option τ} :
      q.attemptPop t wakes = some (o, q') → Fires q o q' (.pop t wakes)
  | retryPop {t : τ} {timedOut : Bool} {wakes : Option τ} {c : CondVar τ} :
      q.condEmpty.resume t = some c →
      attemptPop { q with condEmpty := c } t wakes = some (o, q') →
      Fires q o q' (.retry t timedOut wakes)
  | tryPop {t : τ} {wakes : Option τ} :
      q.tryPop wakes = some (o, q') → Fires q o q' (.tryPop t wakes)
  | stop {t : τ} : o = .stop → q' = q.stop → Fires q o q' (.stop t)
  | wakeFull {t : τ} {c : CondVar τ} : q.condFull.wake t = some c → o = .silent →
      q' = { q with condFull := c } → Fires q o q' (.wake t)
  | wakeEmpty {t : τ} {c : CondVar τ} : q.condEmpty.wake t = some c → o = .silent →
      q' = { q with condEmpty := c } → Fires q o q' (.wake t)

theorem step_fires (h : q.step e = some (o, q')) : Fires q o q' e := by
  cases e with
  | push t x timed wakes =>
    simp only [step, Option.ite_none_right_eq_some] at h
    exact .push h.2
  | pop t wakes =>
    simp only [step, Option.ite_none_right_eq_some] at h
    exact .pop h.2
  | tryPop t wakes =>
    simp only [step, Option.ite_none_right_eq_some] at h
    exact .tryPop h.2
  | stop t =>
    simp only [step, Option.ite_none_right_eq_some] at h
    cases h.2
    exact .stop rfl rfl
  | wake t =>
    simp only [step] at h
    split at h
    · obtain ⟨c, hc, he⟩ := Option.map_eq_some_iff.mp h
      cases he
      exact .wakeFull hc rfl rfl
    · obtain ⟨c, hc, he⟩ := Option.map_eq_some_iff.mp h
      cases he
      exact .wakeEmpty hc rfl rfl
    · cases h
  | retry t timedOut wakes =>
    simp only [step] at h
    split at h
    · obtain ⟨c, hc, he⟩ := Option.bind_eq_some_iff.mp h
      exact .retryPush hc he
    · obtain ⟨c, hc, he⟩ := Option.bind_eq_some_iff.mp h
      exact .retryPop hc he
    · cases h

theorem attemptPush_refines (h : q.attemptPush t x timed timedOut wakes = some (o, q')) :
    q'.maxSize = q.maxSize ∧ Fifo.Step q.maxSize q.fifo o q'.fifo := by
  obtain ⟨rfl, rfl, -⟩ | ⟨rfl, hs, hl, c, -, rfl⟩ | ⟨rfl, -, -, rfl⟩ := attemptPush_cases h
  · exact ⟨rfl, .refuse _ x⟩
  · refine ⟨rfl, ?_⟩
    simp only [fifo, done, hs]
    exact .push x hl
  · exact ⟨rfl, .silent _⟩

theorem attemptPop_refines (h : q.attemptPop t wakes = some (o, q')) :
    q'.maxSize = q.maxSize ∧ Fifo.Step q.maxSize q.fifo o q'.fifo := by
  obtain ⟨x, rest, c, hq, -, rfl, rfl⟩ | ⟨hq, hs, rfl, rfl⟩ | ⟨hq, hs, rfl, rfl⟩ :=
    attemptPop_cases h
  · refine ⟨rfl, ?_⟩
    simp only [fifo, done, hq]
    exact .pop x rest _
  · refine ⟨rfl, ?_⟩
    simp only [fifo, done, hq, hs]
    exact .drained
  · exact ⟨rfl, .silent _⟩

theorem tryPop_refines (h : q.tryPop wakes = some (o, q')) :
    q'.maxSize = q.maxSize ∧ Fifo.Step q.maxSize q.fifo o q'.fifo := by
  obtain ⟨hq, rfl, rfl⟩ | ⟨x, rest, c, hq, -, rfl, rfl⟩ := tryPop_cases h
  · refine ⟨rfl, ?_⟩
    simp only [fifo, hq]
    exact .nothing _
  · refine ⟨rfl, ?_⟩
    simp only [fifo, hq]
    exact .tryPop x rest _

/-- The queue with its threads, locks and wakeups refines the bounded queue. -/
theorem step_refines (h : q.step e = some (o, q')) :
    q'.maxSize = q.maxSize ∧ Fifo.Step q.maxSize q.fifo o q'.fifo := by
  cases step_fires h with
  | push ha => exact attemptPush_refines ha
  | retryPush _ ha =>
    have hp := attemptPush_refines ha
    exact hp
  | pop ha => exact attemptPop_refines ha
  | retryPop _ ha =>
    have hp := attemptPop_refines ha
    exact hp
  | tryPop ha => exact tryPop_refines ha
  | stop ho hq =>
    subst ho hq
    exact ⟨rfl, .stop _⟩
  | wakeFull _ ho hq | wakeEmpty _ ho hq =>
    subst ho hq
    exact ⟨rfl, .silent _⟩

theorem stop_of_outcome (h : q.step e = some (o, q')) : o = .stop ↔ ∃ t, e = .stop t := by
  cases step_fires h with
  | push ha | retryPush _ ha =>
    obtain ⟨rfl, -⟩ | ⟨rfl, -⟩ | ⟨rfl, -⟩ := attemptPush_cases ha <;> simp
  | pop ha | retryPop _ ha =>
    obtain ⟨_, _, _, -, -, rfl, -⟩ | ⟨-, -, rfl, -⟩ | ⟨-, -, rfl, -⟩ := attemptPop_cases ha <;> simp
  | tryPop ha =>
    obtain ⟨-, rfl, -⟩ | ⟨_, _, _, -, -, rfl, -⟩ := tryPop_cases ha <;> simp
  | stop ho => simp [ho]
  | wakeFull _ ho | wakeEmpty _ ho => simp [ho]

/-- Free slots and values are covered by threads that are on their way back, and nobody waits at a
stopped queue. -/
structure Attended (q : SafeQueue α τ) : Prop where
  full : q.condFull.Covers (q.maxSize - q.queue.length)
  empty : q.condEmpty.Covers q.queue.length
  stopped : q.stopped = true → q.condFull.waiting = [] ∧ q.condEmpty.waiting = []

/-- A thread that comes back to `push` may have been one of those that covered the free slots. -/
theorem attemptPush_attended (h : q.attemptPush t x timed timedOut wakes = some (o, q'))
    (hf : q.condFull.Covers (q.maxSize - q.queue.length - 1))
    (he : q.condEmpty.Covers q.queue.length)
    (hs : q.stopped = true → q.condFull.waiting = [] ∧ q.condEmpty.waiting = []) :
    q'.Attended := by
  obtain ⟨-, rfl, hw⟩ | ⟨-, hw, hl, c, hc, rfl⟩ | ⟨-, hw, hl, rfl⟩ := attemptPush_cases h
  · refine ⟨?_, he, hs⟩
    obtain hw | hl := hw
    · exact CondVar.covers_of_waiting_eq_nil (hs hw).1
    · rw [show (q.done t).maxSize - (q.done t).queue.length = 0 from Nat.sub_eq_zero_of_le hl]
      exact CondVar.covers_zero
  · refine ⟨?_, ?_, fun hw' => absurd hw' (by simp [done, hw])⟩
    · simp only [done, List.length_append, List.length_singleton, ← Nat.sub_sub]
      exact hf
    · simp only [List.length_append, List.length_singleton]
      exact he.notifyOne hc
  · refine ⟨?_, he, fun hw' => absurd hw' (by simp [hw])⟩
    rw [Nat.sub_eq_zero_of_le hl]
    exact CondVar.covers_zero

theorem attemptPop_attended (h : q.attemptPop t wakes = some (o, q'))
    (hf : q.condFull.Covers (q.maxSize - q.queue.length))
    (he : q.condEmpty.Covers (q.queue.length - 1))
    (hs : q.stopped = true → q.condFull.waiting = [] ∧ q.condEmpty.waiting = []) :
    q'.Attended := by
  obtain ⟨x, rest, c, hq, hc, -, rfl⟩ | ⟨hq, hw, -, rfl⟩ | ⟨hq, hw, -, rfl⟩ := attemptPop_cases h
  · rw [hq, List.length_cons] at hf he
    refine ⟨(hf.notifyOne hc).mono ?_, he, fun hw => ?_⟩
    · simp only [done]
      omega
    · rw [show c = q.condFull from CondVar.notifyOne_waiting_eq_nil hc (hs hw).1]
      exact hs hw
  · refine ⟨hf, ?_, hs⟩
    simp only [done, hq, List.length_nil]
    exact CondVar.covers_zero
  · refine ⟨hf, ?_, fun hw' => absurd hw' (by simp [hw])⟩
    simp only [hq, List.length_nil]
    exact CondVar.covers_zero

theorem Attended.tryPop (ha : q.Attended) (h : q.tryPop wakes = some (o, q')) : q'.Attended := by
  obtain ⟨-, -, rfl⟩ | ⟨x, rest, c, hq, hc, -, rfl⟩ := tryPop_cases h
  · exact ha
  · obtain ⟨hf, he, hs⟩ := ha
    rw [hq, List.length_cons] at hf he
    refine ⟨(hf.notifyOne hc).mono ?_, he.mono (Nat.le_succ _), fun hw => ?_⟩
    · show q.maxSize - rest.length ≤ q.maxSize - (rest.length + 1) + 1
      omega
    · rw [show c = q.condFull from CondVar.notifyOne_waiting_eq_nil hc (hs hw).1]
      exact hs hw

theorem Attended.step (ha : q.Attended) (h : q.step e = some (o, q')) : q'.Attended := by
  cases step_fires h with
  | push hp => exact attemptPush_attended hp (ha.full.mono (Nat.sub_le _ 1)) ha.empty ha.stopped
  | retryPush hr hp =>
    refine attemptPush_attended hp (ha.full.resume hr) ha.empty fun hw => ?_
    exact ⟨(CondVar.resume_waiting hr).trans (ha.stopped hw).1, (ha.stopped hw).2⟩
  | pop hp => exact attemptPop_attended hp ha.full (ha.empty.mono (Nat.sub_le _ 1)) ha.stopped
  | retryPop hr hp =>
    refine attemptPop_attended hp ha.full (ha.empty.resume hr) fun hw => ?_
    exact ⟨(ha.stopped hw).1, (CondVar.resume_waiting hr).trans (ha.stopped hw).2⟩
  | tryPop hp => exact ha.tryPop hp
  | stop _ hq =>
    subst hq
    exact ⟨CondVar.covers_of_waiting_eq_nil rfl, CondVar.covers_of_waiting_eq_nil rfl,
      fun _ => ⟨rfl, rfl⟩⟩
  | wakeFull hk _ hq =>
    subst hq
    exact ⟨ha.full.wake hk, ha.empty, fun hw =>
      (CondVar.wake_waiting_eq_nil hk (ha.stopped hw).1).elim⟩
  | wakeEmpty hk _ hq =>
    subst hq
    exact ⟨ha.full, ha.empty.wake hk, fun hw =>
      (CondVar.wake_waiting_eq_nil hk (ha.stopped hw).2).elim⟩

/-- A call that waits is in the wait of its condition variable. -/
structure Seated (q : SafeQueue α τ) (t : τ) : Prop where
  push : ∀ {x timed}, q.calls t = some (.push x timed) → t ∈ q.condFull.members
  pop : q.calls t = some .pop → t ∈ q.condEmpty.members

theorem seated_done (hs : ∀ u ≠ t, q.Seated u) (u : τ) : (q.done t).Seated u := by
  by_cases hu : u = t
  · subst hu
    constructor <;> simp [done]
  · have hc : (q.done t).calls u = q.calls u := Function.update_of_ne hu _ _
    exact ⟨fun h => (hs u hu).push (hc.symm.trans h), fun h => (hs u hu).pop (hc.symm.trans h)⟩

theorem attemptPush_seated (h : q.attemptPush t x timed timedOut wakes = some (o, q'))
    (hs : ∀ u ≠ t, q.Seated u) (u : τ) : q'.Seated u := by
  obtain ⟨-, rfl, -⟩ | ⟨-, -, -, c, hc, rfl⟩ | ⟨-, -, -, rfl⟩ := attemptPush_cases h
  · exact seated_done hs u
  · have hd := seated_done hs u
    exact ⟨hd.push, fun hu => CondVar.mem_members_notifyOne hc (hd.pop hu)⟩
  · by_cases hu : u = t
    · subst hu
      refine ⟨fun _ => CondVar.mem_members_wait.mpr (.inr rfl), ?_⟩
      simp
    · have hcall : Function.update q.calls t (some (.push x timed)) u = q.calls u :=
        Function.update_of_ne hu _ _
      refine ⟨fun h => CondVar.mem_members_wait.mpr (.inl ?_),
        fun h => (hs u hu).pop (hcall.symm.trans h)⟩
      exact (hs u hu).push (hcall.symm.trans h)

theorem attemptPop_seated (h : q.attemptPop t wakes = some (o, q'))
    (hs : ∀ u ≠ t, q.Seated u) (u : τ) : q'.Seated u := by
  obtain ⟨x, rest, c, -, hc, -, rfl⟩ | ⟨-, -, -, rfl⟩ | ⟨-, -, -, rfl⟩ := attemptPop_cases h
  · have hd := seated_done hs u
    exact ⟨fun hu => CondVar.mem_members_notifyOne hc (hd.push hu), hd.pop⟩
  · exact seated_done hs u
  · by_cases hu : u = t
    · subst hu
      refine ⟨?_, fun _ => CondVar.mem_members_wait.mpr (.inr rfl)⟩
      simp
    · have hcall : Function.update q.calls t (some .pop) u = q.calls u :=
        Function.update_of_ne hu _ _
      refine ⟨fun h => (hs u hu).push (hcall.symm.trans h),
        fun h => CondVar.mem_members_wait.mpr (.inl ?_)⟩
      exact (hs u hu).pop (hcall.symm.trans h)

theorem seated_step (hs : ∀ u, q.Seated u) (h : q.step e = some (o, q')) (u : τ) :
    q'.Seated u := by
  cases step_fires h with
  | push hp => exact attemptPush_seated hp (fun u _ => hs u) u
  | retryPush hr hp =>
    refine attemptPush_seated hp (fun v hv => ⟨fun h => ?_, (hs v).pop⟩) u
    exact CondVar.mem_members_resume hr hv ((hs v).push h)
  | pop hp => exact attemptPop_seated hp (fun u _ => hs u) u
  | retryPop hr hp =>
    refine attemptPop_seated hp (fun v hv => ⟨(hs v).push, fun h => ?_⟩) u
    exact CondVar.mem_members_resume hr hv ((hs v).pop h)
  | tryPop hp =>
    obtain ⟨-, -, rfl⟩ | ⟨x, rest, c, -, hc, -, rfl⟩ := tryPop_cases hp
    · exact hs u
    · exact ⟨fun h => CondVar.mem_members_notifyOne hc ((hs u).push h), (hs u).pop⟩
  | stop _ hq =>
    subst hq
    exact ⟨fun h => CondVar.mem_members_notifyAll.mpr ((hs u).push h),
      fun h => CondVar.mem_members_notifyAll.mpr ((hs u).pop h)⟩
  | wakeFull hk _ hq =>
    subst hq
    exact ⟨fun h => CondVar.mem_members_wake hk ((hs u).push h), (hs u).pop⟩
  | wakeEmpty hk _ hq =>
    subst hq
    exact ⟨(hs u).push, fun h => CondVar.mem_members_wake hk ((hs u).pop h)⟩

end

def Initial (q : SafeQueue α τ) : Prop := ∃ n, q = { maxSize := n }

def Stopped (tr : List ((Event α τ × Outcome α) × SafeQueue α τ)) : Prop :=
  ∃ a ∈ tr, ∃ t, a.1.1 = .stop t

section

variable {q q' : SafeQueue α τ} {n : ℕ} {tr : List ((Event α τ × Outcome α) × SafeQueue α τ)}

theorem stopped_snoc {α τ : Type*} (tr : List ((Event α τ × Outcome α) × SafeQueue α τ)) (t : τ)
    (o : Outcome α) (q : SafeQueue α τ) : Stopped (tr ++ [((.stop t, o), q)]) :=
  ⟨_, List.mem_append_right tr List.mem_cons_self, t, rfl⟩

theorem attended_of_reachable (h : Reachable Initial Step q) : q.Attended := by
  refine h.invariant (P := Attended) ?_ fun _ _ _ ha hs => ha.step hs
  rintro _ ⟨n, rfl⟩
  exact ⟨CondVar.covers_of_waiting_eq_nil rfl, CondVar.covers_of_waiting_eq_nil rfl,
    fun _ => ⟨rfl, rfl⟩⟩

theorem seated_of_reachable (h : Reachable Initial Step q) (t : τ) : q.Seated t := by
  refine h.invariant (P := fun q => ∀ t, q.Seated t) ?_ (fun _ _ _ ha hs => seated_step ha hs) t
  rintro _ ⟨n, rfl⟩ t
  constructor <;> simp

theorem run_account (hr : Run Step { maxSize := n } tr q) :
    q.maxSize = n ∧ accepted tr = handed tr ++ q.queue ∧ q.queue.length ≤ n ∧
      (q.stopped = true ↔ Stopped tr) := by
  refine hr.traceInvariant (P := fun tr q => q.maxSize = n ∧ accepted tr = handed tr ++ q.queue ∧
    q.queue.length ≤ n ∧ (q.stopped = true ↔ Stopped tr)) ?_ ?_
  · simp [accepted, handed, Stopped]
  · rintro tr q ⟨e, o⟩ q' - ⟨hn, hacc, hlen, hst⟩ hs
    obtain ⟨hn', hf⟩ := step_refines hs
    rw [hn] at hn' hf
    refine ⟨hn', ?_, hf.bounded hlen, ?_⟩
    · have hstep : q.queue ++ o.accepted = o.handed ++ q'.queue := hf.account
      simp only [accepted, handed, List.flatMap_append, List.flatMap_singleton] at hacc ⊢
      rw [hacc, List.append_assoc, List.append_assoc, hstep]
    · have hclosed : q'.stopped = true ↔ q.stopped = true ∨ o = .stop := hf.closed_iff
      rw [hclosed, hst, stop_of_outcome hs]
      simp [Stopped, or_and_right, exists_or]

/-- No wakeup is lost. Whoever waits without having been notified waits at a queue that is not
stopped, and every free slot (every value) is covered by a notified thread. So a call that could go
on is never left with nobody to wake it, nor is any call once `stop` was called. -/
theorem no_lost_wakeup (h : Reachable Initial Step q) :
    (q.condFull.waiting ≠ [] → q.stopped = false ∧
      q.maxSize - q.queue.length ≤ q.condFull.notified.length) ∧
    (q.condEmpty.waiting ≠ [] → q.stopped = false ∧
      q.queue.length ≤ q.condEmpty.notified.length) ∧
    (∀ t x timed, q.calls t = some (.push x timed) → q.queue.length < q.maxSize ∨ q.stopped →
      ∃ u, u ∈ q.condFull.notified ∨ u ∈ q.condFull.woken) ∧
    (∀ t, q.calls t = some .pop → q.queue ≠ [] ∨ q.stopped →
      ∃ u, u ∈ q.condEmpty.notified ∨ u ∈ q.condEmpty.woken) ∧
    (∀ n tr, Run Step { maxSize := n } tr q → Stopped tr →
      (∀ t x timed, q.calls t = some (.push x timed) →
        ∃ u, u ∈ q.condFull.notified ∨ u ∈ q.condFull.woken) ∧
      ∀ t, q.calls t = some .pop → ∃ u, u ∈ q.condEmpty.notified ∨ u ∈ q.condEmpty.woken) := by
  have ha := attended_of_reachable h
  have hfull : q.condFull.waiting ≠ [] → q.stopped = false := fun hw =>
    Bool.eq_false_iff.mpr fun hq => hw (ha.stopped hq).1
  have hempty : q.condEmpty.waiting ≠ [] → q.stopped = false := fun hw =>
    Bool.eq_false_iff.mpr fun hq => hw (ha.stopped hq).2
  have hpush : ∀ t x timed, q.calls t = some (.push x timed) →
      q.queue.length < q.maxSize ∨ q.stopped →
        ∃ u, u ∈ q.condFull.notified ∨ u ∈ q.condFull.woken := by
    intro t x timed ht hroom
    have hm := (seated_of_reachable h t).push ht
    obtain hl | hq := hroom
    · exact ha.full.exists_back (Nat.sub_pos_of_lt hl) hm
    · exact (CondVar.covers_of_waiting_eq_nil (ha.stopped hq).1).exists_back Nat.one_pos hm
  have hpop : ∀ t, q.calls t = some .pop → q.queue ≠ [] ∨ q.stopped →
      ∃ u, u ∈ q.condEmpty.notified ∨ u ∈ q.condEmpty.woken := by
    intro t ht hroom
    have hm := (seated_of_reachable h t).pop ht
    obtain hl | hq := hroom
    · exact ha.empty.exists_back (List.length_pos_iff.mpr hl) hm
    · exact (CondVar.covers_of_waiting_eq_nil (ha.stopped hq).2).exists_back Nat.one_pos hm
  refine ⟨fun hw => ⟨hfull hw, ha.full hw⟩, fun hw => ⟨hempty hw, ha.empty hw⟩, hpush, hpop,
    fun n tr hr hstop => ?_⟩
  have hq : q.stopped = true := (run_account hr).2.2.2.mpr hstop
  exact ⟨fun t x timed ht => hpush t x timed ht (.inr hq), fun t ht => hpop t ht (.inr hq)⟩

theorem no_lost_wakeup_oneSlot : ∃ q : SafeQueue ℕ ℕ, Reachable Initial Step q ∧
    q.condFull.waiting = [2] ∧ q.queue = [] ∧ q.stopped = false ∧
    q.maxSize - q.queue.length ≤ q.condFull.notified.length := by
  have hr := ((((Run.nil ({ maxSize := 1 } : SafeQueue ℕ ℕ)).snoc
    (show Step _ (.push 0 7 false none, .push 7 true) _ from rfl)).snoc
    (show Step _ (.push 1 8 false none, .silent) _ from rfl)).snoc
    (show Step _ (.push 2 9 true none, .silent) _ from rfl)).snoc
    (show Step _ (.tryPop 0 (some 1), .tryPop (some 7)) _ from rfl)
  have h : Reachable Initial Step _ := ⟨_, _, ⟨1, rfl⟩, hr⟩
  exact ⟨_, h, rfl, rfl, (no_lost_wakeup h).1 (List.cons_ne_nil 2 [])⟩

theorem exists_drain {t : τ} (hs : q.stopped = true) (hw : q.condFull.waiting = [])
    (ht : q.calls t = none) : ∃ tr' q', Run Step q tr' q' ∧ handed tr' = q.queue ∧
      q'.queue = [] ∧ Step q' (.pop t none, .pop none) (q'.done t) := by
  obtain ⟨l, hl⟩ : ∃ l, q.queue = l := ⟨_, rfl⟩
  induction l generalizing q with
  | nil =>
    refine ⟨[], q, .nil q, hl.symm, hl, ?_⟩
    simp [Step, SafeQueue.step, attemptPop, hl, hs, ht]
  | cons x rest ih =>
    let q₁ : SafeQueue α τ := { q.done t with queue := rest }
    have hstep : Step q (.pop t none, .pop (some x)) q₁ := by
      simp [Step, SafeQueue.step, attemptPop, hl, ht, CondVar.notifyOne, hw, q₁, done]
    obtain ⟨tr', q', hr, hh, hq, hend⟩ := ih (q := q₁) hs hw (by simp [q₁, done]) rfl
    refine ⟨_, q', ((Run.nil q).snoc hstep).append hr, ?_, hq, hend⟩
    rw [hl, show rest = handed tr' from hh.symm]
    rfl

/-- The queue is a bounded FIFO: what was handed out is a beginning of what was accepted, the rest
is the content, which never exceeds the capacity; refused values leave no trace; nothing is accepted
after `stop`, but everything accepted before can still be taken out once, and only then does `pop`
fail. -/
theorem bounded_fifo (hr : Run Step { maxSize := n } tr q) :
    accepted tr = handed tr ++ q.queue ∧ q.queue.length ≤ n ∧
    (∀ e x q', Step q (e, .push x false) q' → q'.queue = q.queue) ∧
    (Stopped tr → ∀ e x q', ¬ Step q (e, .push x true) q') ∧
    (∀ e q', Step q (e, .pop none) q' → Stopped tr ∧ q.queue = []) ∧
    (Stopped tr → ∀ t, q.calls t = none → ∃ tr' q', Run Step q tr' q' ∧ handed tr' = q.queue ∧
      q'.queue = [] ∧ Step q' (.pop t none, .pop none) (q'.done t)) := by
  obtain ⟨-, hacc, hlen, hst⟩ := run_account hr
  refine ⟨hacc, hlen, ?_, ?_, ?_, ?_⟩
  · intro e x q' hs
    exact congrArg Fifo.content (step_refines hs).2.of_refused
  · intro hstop e x q' hs
    have hopen : q.stopped = false := (step_refines hs).2.open_of_accepted
    simp [hst.mpr hstop] at hopen
  · intro e q' hs
    have hq : q.fifo = ⟨[], true⟩ := (step_refines hs).2.of_drained
    exact ⟨hst.mp (congrArg Fifo.closed hq), congrArg Fifo.content hq⟩
  · intro hstop t ht
    have ha := attended_of_reachable ⟨_, tr, ⟨n, rfl⟩, hr⟩
    exact exists_drain (hst.mpr hstop) (ha.stopped (hst.mpr hstop)).1 ht

theorem bounded_fifo_oneSlot : ∃ tr, ∃ q : SafeQueue ℕ ℕ, Run Step { maxSize := 1 } tr q ∧
    Stopped tr ∧ accepted tr = [7] ∧ handed tr = [] ∧
    ∃ tr' q', Run Step q tr' q' ∧ handed tr' = [7] ∧ q'.queue = [] := by
  have hr := ((Run.nil ({ maxSize := 1 } : SafeQueue ℕ ℕ)).snoc
    (show Step _ (.push 0 7 false none, .push 7 true) _ from rfl)).snoc
    (show Step _ (.stop 0, .stop) _ from rfl)
  obtain ⟨-, -, -, -, -, hdrain⟩ := bounded_fifo hr
  obtain ⟨tr', q', hr', hh, hq, -⟩ := hdrain (stopped_snoc _ 0 _ _) 0 rfl
  exact ⟨_, _, hr, stopped_snoc _ 0 _ _, rfl, rfl, tr', q', hr', hh, hq⟩

end

end SafeQueue

end ZmqPubSub
