import Mathlib.Data.List.Basic
import ZmqPubSub.ConnectionManager
import ZmqPubSub.SafeQueue
import ZmqPubSub.ZmqWorker

/-!
`statusHandler(true)` as the worker thread runs it on the bounded control queue. Its pushes are
timed and their results are ignored. Other threads may write to the queue meanwhile, but the worker
thread is the only one that takes anything out.
-/

namespace ZmqPubSub

open TransitionSystem

def ConnectionManager.onlineEnvelopes {κ : Type*} (m : ConnectionManager κ) : List Envelope :=
  createControlEnvelope Keys.connect m.clientId "" ::
    m.topics.map (createControlEnvelope Keys.subscribe m.clientId)

theorem ConnectionManager.controlQueue_statusHandler {κ : Type*} (m : ConnectionManager κ) :
    (m.statusHandler true).controlQueue = m.controlQueue ++ m.onlineEnvelopes := by
  rw [statusHandler_true, onlineEnvelopes]

structure StatusCallback (τ : Type*) where
  control : SafeQueue Envelope τ
  /-- What the callback has still to send. -/
  todo : List Envelope

namespace StatusCallback

open SafeQueue

variable {κ τ : Type*} [DecidableEq τ]

/-- The callback goes on when its `push` returns, whatever it returns. -/
def returned (worker : τ) (s : StatusCallback τ) (t : τ) :
    Outcome Envelope × SafeQueue Envelope τ → StatusCallback τ
  | (.push _ _, control) => ⟨control, if t = worker then s.todo.tail else s.todo⟩
  | (_, control) => ⟨control, s.todo⟩

/-- Every thread writes through `writeControlMessage`. Nobody calls `pop` or `stop`, and `try_pop`
is called by the worker thread only, which is in the callback. -/
def step (worker : τ) (s : StatusCallback τ) (e : Event Envelope τ) : Option (StatusCallback τ) :=
  match e with
  | .push t value timed _ =>
    if timed = true ∧ (t = worker → s.todo.head? = some value) then
      (s.control.step e).map (s.returned worker t)
    else none
  | .wake t => (s.control.step e).map (s.returned worker t)
  | .retry t _ _ => (s.control.step e).map (s.returned worker t)
  | .pop _ _ | .tryPop _ _ | .stop _ => none

/-- Another thread's message enters the queue only if there is room for it besides everything that
the callback has still to send. -/
def KeepsRoom (worker : τ) (s : StatusCallback τ) : Event Envelope τ → Prop
  | .push t _ _ _ | .retry t _ _ => t ≠ worker → s.control.queue.length < s.control.maxSize →
    s.control.queue.length + s.todo.length < s.control.maxSize
  | _ => True

structure Quiet (q : SafeQueue Envelope τ) : Prop where
  isOpen : q.stopped = false
  noPop : ∀ t, q.calls t ≠ some .pop
  nobody : q.condEmpty.waiting = []

/-- What a step of thread `t` does to a queue without consumers. -/
structure Extends (q : SafeQueue Envelope τ) (t : τ) (o : Outcome Envelope)
    (q' : SafeQueue Envelope τ) : Prop where
  quiet : Quiet q'
  maxSize : q'.maxSize = q.maxSize
  calls : ∀ u ≠ t, q'.calls u = q.calls u
  outcome : (∃ x, o = .push x true ∧ q.queue.length < q.maxSize ∧ q'.queue = q.queue ++ [x]) ∨
    ((o = .silent ∨ ∃ x, o = .push x false) ∧ q'.queue = q.queue)

section

variable {q q' : SafeQueue Envelope τ} {t : τ} {o : Outcome Envelope} {x : Envelope}
  {timed timedOut : Bool} {wakes : Option τ}

theorem Quiet.noPop_update (hq : Quiet q) (t : τ) {c : Option (Call Envelope)}
    (hc : c ≠ some .pop) (u : τ) : Function.update q.calls t c u ≠ some .pop := by
  by_cases hu : u = t
  · subst hu
    rwa [Function.update_self]
  · rw [Function.update_of_ne hu]
    exact hq.noPop u

theorem Quiet.attemptPush (hq : Quiet q)
    (h : q.attemptPush t x timed timedOut wakes = some (o, q')) : Extends q t o q' := by
  have hupdate : ∀ c : Option (Call Envelope), ∀ u ≠ t, Function.update q.calls t c u = q.calls u :=
    fun c u hu => Function.update_of_ne hu c q.calls
  obtain ⟨rfl, rfl, -⟩ | ⟨rfl, hs, hl, c, hc, rfl⟩ | ⟨rfl, hs, -, rfl⟩ := attemptPush_cases h
  · exact ⟨⟨hq.isOpen, hq.noPop_update t (Option.some_ne_none _).symm, hq.nobody⟩, rfl,
      hupdate none, .inr ⟨.inr ⟨x, rfl⟩, rfl⟩⟩
  · have hce : c = q.condEmpty := CondVar.notifyOne_waiting_eq_nil hc hq.nobody
    subst hce
    exact ⟨⟨hs, hq.noPop_update t (Option.some_ne_none _).symm, hq.nobody⟩, rfl, hupdate none,
      .inl ⟨x, rfl, hl, rfl⟩⟩
  · exact ⟨⟨hs, hq.noPop_update t (by simp), hq.nobody⟩, rfl, hupdate _, .inr ⟨.inl rfl, rfl⟩⟩

theorem Quiet.call (hq : Quiet q) (h : q.step (.push t x timed wakes) = some (o, q')) :
    Extends q t o q' := by
  simp only [SafeQueue.step, Option.ite_none_right_eq_some] at h
  exact hq.attemptPush h.2

theorem Quiet.wake (hq : Quiet q) (h : q.step (.wake t) = some (o, q')) :
    Extends q t o q' ∧ q'.queue = q.queue := by
  cases step_fires h with
  | wakeFull _ ho hq' =>
    subst ho hq'
    exact ⟨⟨⟨hq.isOpen, hq.noPop, hq.nobody⟩, rfl, fun _ _ => rfl, .inr ⟨.inl rfl, rfl⟩⟩, rfl⟩
  | wakeEmpty hk => exact (CondVar.wake_waiting_eq_nil hk hq.nobody).elim

theorem Quiet.retry (hq : Quiet q) (h : q.step (.retry t timedOut wakes) = some (o, q')) :
    Extends q t o q' := by
  simp only [SafeQueue.step] at h
  split at h
  · obtain ⟨c, -, ha⟩ := Option.bind_eq_some_iff.mp h
    have hc : Quiet { q with condFull := c } := ⟨hq.isOpen, hq.noPop, hq.nobody⟩
    obtain ⟨hquiet, hmax, hcalls, hout⟩ := hc.attemptPush ha
    exact ⟨hquiet, hmax, hcalls, hout⟩
  · next hpop => exact absurd hpop (hq.noPop t)
  · cases h

theorem Quiet.push_eq (hq : Quiet q) (ht : q.calls t = none) (hl : q.queue.length < q.maxSize) :
    q.step (.push t x timed wakes) = if wakes = none then
      some (.push x true, { q.done t with queue := q.queue ++ [x] }) else none := by
  cases wakes <;>
    simp [SafeQueue.step, SafeQueue.attemptPush, ht, hl, hq.isOpen, CondVar.notifyOne, hq.nobody,
      done]

end

/-- The callback has sent what it went past, and what it has still to send will fit. -/
structure Safe (worker : τ) (envelopes : List Envelope) (s : StatusCallback τ) : Prop where
  quiet : Quiet s.control
  idle : s.control.calls worker = none
  room : s.control.queue.length + s.todo.length ≤ s.control.maxSize
  sent : ∀ env ∈ envelopes, env ∈ s.control.queue ∨ env ∈ s.todo

section

variable {worker : τ} {envelopes : List Envelope} {s s' : StatusCallback τ} {t : τ}

theorem Safe.other (hs : Safe worker envelopes s) (ht : t ≠ worker) {o : Outcome Envelope}
    {q : SafeQueue Envelope τ} (he : Extends s.control t o q)
    (hroom : q.queue ≠ s.control.queue → s.control.queue.length < s.control.maxSize →
      s.control.queue.length + s.todo.length < s.control.maxSize) :
    Safe worker envelopes (s.returned worker t (o, q)) := by
  have htodo : s.returned worker t (o, q) = ⟨q, s.todo⟩ := by
    cases o <;> simp [returned, ht]
  rw [htodo]
  have hidle : q.calls worker = none := (he.calls worker ht.symm).trans hs.idle
  obtain ⟨x, -, hl, hq⟩ | ⟨-, hq⟩ := he.outcome
  · have hlt := hroom (by simp [hq]) hl
    refine ⟨he.quiet, hidle, ?_, fun env henv => ?_⟩
    · simp only [hq, he.maxSize, List.length_append, List.length_singleton]
      omega
    · simp only [hq, List.mem_append]
      exact (hs.sent env henv).imp_left Or.inl
  · refine ⟨he.quiet, hidle, ?_, ?_⟩
    · simp only [hq, he.maxSize]
      exact hs.room
    · simp only [hq]
      exact hs.sent

def pushed (worker : τ) (s : StatusCallback τ) (env : Envelope) : StatusCallback τ :=
  ⟨{ s.control.done worker with queue := s.control.queue ++ [env] }, s.todo.tail⟩

theorem Quiet.pushed (hq : Quiet s.control) (worker : τ) (env : Envelope) :
    Quiet (pushed worker s env).control ∧ (pushed worker s env).control.calls worker = none :=
  ⟨⟨hq.isOpen, hq.noPop_update worker (Option.some_ne_none _).symm, hq.nobody⟩,
    Function.update_self ..⟩

theorem step_push_eq (hq : Quiet s.control) (hidle : s.control.calls worker = none)
    (hlt : s.control.queue.length < s.control.maxSize) {env : Envelope}
    (htodo : s.todo.head? = some env) (wakes : Option τ) :
    step worker s (.push worker env true wakes) =
      if wakes = none then some (pushed worker s env) else none := by
  have hif : true = true ∧ (worker = worker → s.todo.head? = some env) := ⟨rfl, fun _ => htodo⟩
  rw [step, if_pos hif, hq.push_eq hidle hlt]
  split_ifs
  · simp [returned, pushed]
  · rfl

theorem Safe.lt {τ : Type*} {worker : τ} {s : StatusCallback τ} (hs : Safe worker envelopes s)
    {env : Envelope} (htodo : s.todo.head? = some env) :
    s.control.queue.length < s.control.maxSize := by
  obtain ⟨rest, hrest⟩ := List.head?_eq_some_iff.mp htodo
  have hroom := hs.room
  rw [hrest, List.length_cons] at hroom
  omega

theorem Safe.pushed (hs : Safe worker envelopes s) {env : Envelope}
    (htodo : s.todo.head? = some env) : Safe worker envelopes (pushed worker s env) := by
  obtain ⟨rest, hrest⟩ := List.head?_eq_some_iff.mp htodo
  have hroom := hs.room
  rw [hrest, List.length_cons] at hroom
  have hq := hs.quiet.pushed worker env
  refine ⟨hq.1, hq.2, ?_, fun x hx => ?_⟩
  · simp only [StatusCallback.pushed, done, hrest, List.tail_cons, List.length_append,
      List.length_singleton]
    omega
  · have h := hs.sent x hx
    rw [hrest, List.mem_cons] at h
    simp only [StatusCallback.pushed, hrest, List.tail_cons, List.mem_append, List.mem_singleton]
    tauto

theorem Safe.step (hs : Safe worker envelopes s) {e : Event Envelope τ}
    (hg : KeepsRoom worker s e) (h : step worker s e = some s') : Safe worker envelopes s' := by
  cases e with
  | push t value timed wakes =>
    by_cases ht : t = worker
    · subst ht
      obtain ⟨rfl, htodo⟩ : timed = true ∧ s.todo.head? = some value := by
        simp only [StatusCallback.step, Option.ite_none_right_eq_some] at h
        exact ⟨h.1.1, h.1.2 trivial⟩
      rw [step_push_eq hs.quiet hs.idle (hs.lt htodo) htodo, Option.ite_none_right_eq_some] at h
      cases h.2
      exact hs.pushed htodo
    · simp only [StatusCallback.step, Option.ite_none_right_eq_some] at h
      obtain ⟨⟨o, q⟩, hq, rfl⟩ := Option.map_eq_some_iff.mp h.2
      exact hs.other ht (hs.quiet.call hq) fun _ => hg ht
  | wake t =>
    obtain ⟨⟨o, q⟩, hq, rfl⟩ := Option.map_eq_some_iff.mp h
    by_cases ht : t = worker
    · -- the callback is not waiting
      subst ht
      simp [SafeQueue.step, hs.idle] at hq
    · have hw := hs.quiet.wake hq
      exact hs.other ht hw.1 fun hne => absurd hw.2 hne
  | retry t timedOut wakes =>
    obtain ⟨⟨o, q⟩, hq, rfl⟩ := Option.map_eq_some_iff.mp h
    by_cases ht : t = worker
    · subst ht
      simp [SafeQueue.step, hs.idle] at hq
    · exact hs.other ht (hs.quiet.retry hq) fun _ => hg ht
  | pop t wakes => cases h
  | tryPop t wakes => cases h
  | stop t => cases h

end

/-- The control queue when the worker thread enters the callback. -/
structure Ready (worker : τ) (q : SafeQueue Envelope τ) : Prop where
  quiet : Quiet q
  idle : q.calls worker = none
  capacity : q.maxSize = ZmqWorker.maxSize

/-- The uses the client makes of its control queue: nobody calls `pop` or `stop`. -/
def ControlUse (_ : SafeQueue Envelope τ) (a : Event Envelope τ × Outcome Envelope) : Prop :=
  ∀ t wakes, a.1 ≠ .pop t wakes ∧ a.1 ≠ .stop t

theorem Quiet.use {q q' : SafeQueue Envelope τ} {a : Event Envelope τ × Outcome Envelope}
    (hq : Quiet q) (ha : ControlUse q a) (h : SafeQueue.Step q a q') :
    Quiet q' ∧ q'.maxSize = q.maxSize := by
  obtain ⟨e, o⟩ := a
  have hmax := (step_refines h).1
  cases e with
  | push t x timed wakes => exact ⟨(hq.call h).quiet, hmax⟩
  | wake t => exact ⟨(hq.wake h).1.quiet, hmax⟩
  | retry t timedOut wakes => exact ⟨(hq.retry h).quiet, hmax⟩
  | tryPop t wakes =>
    refine ⟨?_, hmax⟩
    simp only [SafeQueue.Step, SafeQueue.step, Option.ite_none_right_eq_some] at h
    obtain ⟨-, -, rfl⟩ | ⟨x, rest, c, -, -, -, rfl⟩ := tryPop_cases h.2
    · exact hq
    · exact ⟨hq.isOpen, hq.noPop, hq.nobody⟩
  | pop t wakes => exact absurd rfl (ha t wakes).1
  | stop t => exact absurd rfl (ha t none).2

theorem ready_of_reachable {worker : τ} {q : SafeQueue Envelope τ}
    (h : Reachable (fun q => q = { maxSize := ZmqWorker.maxSize })
      (guarded ControlUse SafeQueue.Step) q) (hidle : q.calls worker = none) : Ready worker q := by
  have hq := h.invariant (P := fun q => Quiet q ∧ q.maxSize = ZmqWorker.maxSize) ?_ ?_
  · exact ⟨hq.1, hidle, hq.2⟩
  · rintro _ rfl
    exact ⟨⟨rfl, fun _ => nofun, rfl⟩, rfl⟩
  · rintro q a q' ⟨hq, hmax⟩ ⟨ha, hs⟩
    have hu := hq.use ha hs
    exact ⟨hu.1, hu.2.trans hmax⟩

/-- If the queue has room for everything the callback sends, and keeps it, no `push` of the
callback waits or fails, and when it returns there is a SUBSCRIBE for every topic. -/
theorem statusHandler_subscribes {m : ConnectionManager κ} {worker : τ}
    {q : SafeQueue Envelope τ} {s : StatusCallback τ}
    {tr : List (Event Envelope τ × StatusCallback τ)} (hq : Ready worker q)
    (hroom : q.queue.length + 1 + m.topics.length ≤ ZmqWorker.maxSize)
    (hr : Run (guarded (KeepsRoom worker) (ofFun (step worker))) ⟨q, m.onlineEnvelopes⟩ tr s) :
    (∀ env rest, s.todo = env :: rest → ∃ s', step worker s (.push worker env true none) = some s' ∧
      s'.todo = rest ∧ s'.control.queue = s.control.queue ++ [env]) ∧
    (s.todo = [] → ∀ topic ∈ m.msgHandlers,
      createControlEnvelope Keys.subscribe m.clientId topic ∈ s.control.queue) := by
  have hsafe : Safe worker m.onlineEnvelopes s := by
    refine hr.invariant (P := Safe worker m.onlineEnvelopes) ?_ fun _ _ _ hs h => hs.step h.1 h.2
    refine ⟨hq.quiet, hq.idle, ?_, fun env henv => .inr henv⟩
    rw [hq.capacity]
    simp only [ConnectionManager.onlineEnvelopes, List.length_cons, List.length_map]
    omega
  constructor
  · intro env rest htodo
    refine ⟨pushed worker s env, ?_, ?_, rfl⟩
    · have hhead : s.todo.head? = some env := by simp [htodo]
      rw [step_push_eq hsafe.quiet hsafe.idle (hsafe.lt hhead) hhead, if_pos rfl]
    · simp [pushed, htodo]
  · intro htodo topic htopic
    have henv : createControlEnvelope Keys.subscribe m.clientId topic ∈ m.onlineEnvelopes :=
      List.mem_cons_of_mem _ (List.mem_map_of_mem ((m.mem_topics topic).mpr htopic))
    exact (hsafe.sent _ henv).resolve_right (by simp [htodo])

theorem statusHandler_subscribes_oneTopic :
    ∃ tr, ∃ s : StatusCallback ℕ, Run (guarded (KeepsRoom 0) (ofFun (step 0)))
        ⟨{}, ({ clientId := "c", msgHandlers := AList.singleton "t" [⟨0, ()⟩] } :
          ConnectionManager Unit).onlineEnvelopes⟩ tr s ∧
      s.control.queue.length = 3 ∧
      createControlEnvelope Keys.subscribe "c" "t" ∈ s.control.queue := by
  let m : ConnectionManager Unit :=
    { clientId := "c", msgHandlers := AList.singleton "t" [⟨0, ()⟩] }
  have hr := (((Run.nil (⟨{}, m.onlineEnvelopes⟩ : StatusCallback ℕ)).snoc
    (show guarded (KeepsRoom 0) (ofFun (step 0)) _
      (.push 0 (createControlEnvelope Keys.connect "c" "") true none) _ from
        ⟨fun h => absurd rfl h, rfl⟩)).snoc
    (show guarded (KeepsRoom 0) (ofFun (step 0)) _
      (.push 1 (createControlEnvelope Keys.disconnect "c" "") true none) _ from
        ⟨fun _ _ => by decide, rfl⟩)).snoc
    (show guarded (KeepsRoom 0) (ofFun (step 0)) _
      (.push 0 (createControlEnvelope Keys.subscribe "c" "t") true none) _ from
        ⟨fun h => absurd rfl h, rfl⟩)
  have hready : Ready 0 ({} : SafeQueue Envelope ℕ) := ⟨⟨rfl, fun _ => nofun, rfl⟩, rfl, rfl⟩
  exact ⟨_, _, hr, rfl,
    (statusHandler_subscribes hready (by decide) hr).2 rfl "t" (by decide)⟩

section

variable {worker : τ} {s : StatusCallback τ}

theorem exists_run_full (hq : Quiet s.control) (hidle : s.control.calls worker = none)
    (hfull : s.control.maxSize ≤ s.control.queue.length) {env : Envelope} {rest : List Envelope}
    (htodo : s.todo = env :: rest) :
    ∃ tr s', Run (ofFun (step worker)) s tr s' ∧ s'.todo = rest ∧
      s'.control.queue = s.control.queue ∧ s'.control.maxSize = s.control.maxSize ∧
      Quiet s'.control ∧ s'.control.calls worker = none := by
  let waits : StatusCallback τ := { s with control := { s.control with
    condFull := s.control.condFull.wait worker
    calls := Function.update s.control.calls worker (some (.push env true)) } }
  have hwait : step worker s (.push worker env true none) = some waits := by
    simp [step, htodo, SafeQueue.step, attemptPush, hidle, Nat.not_lt.mpr hfull, hq.isOpen,
      returned, waits]
  obtain ⟨c, hc⟩ : ∃ c, (s.control.condFull.wait worker).wake worker = some c := by
    simp [CondVar.wake, CondVar.wait]
  let wakes : StatusCallback τ := { waits with control := { waits.control with condFull := c } }
  have hwake : step worker waits (.wake worker) = some wakes := by
    simp [step, SafeQueue.step, waits, wakes, hc, returned]
  obtain ⟨c', hc'⟩ := CondVar.exists_resume_of_wake hc
  let gone : StatusCallback τ := ⟨{ s.control with
    condFull := c', calls := Function.update s.control.calls worker none }, rest⟩
  have hgo : step worker wakes (.retry worker true none) = some gone := by
    simp [step, SafeQueue.step, waits, wakes, gone, hc', attemptPush, Nat.not_lt.mpr hfull,
      hq.isOpen, done, returned, htodo]
  exact ⟨_, gone, (((Run.nil s).snoc hwait).snoc hwake).snoc hgo, rfl, rfl, rfl,
    ⟨hq.isOpen, hq.noPop_update worker (Option.some_ne_none _).symm, hq.nobody⟩,
    Function.update_self ..⟩

/-- The callback with no other thread about: what does not fit is lost. -/
theorem exists_run_alone (hq : Quiet s.control) (hidle : s.control.calls worker = none) :
    ∃ tr s', Run (ofFun (step worker)) s tr s' ∧ s'.todo = [] ∧ s'.control.queue =
      s.control.queue ++ s.todo.take (s.control.maxSize - s.control.queue.length) := by
  -- once the queue is full it stays full, so what is kept is a beginning of what was to be sent
  obtain ⟨todo, htodo⟩ : ∃ todo, s.todo = todo := ⟨_, rfl⟩
  induction todo generalizing s with
  | nil => exact ⟨[], s, .nil s, htodo, by simp [htodo]⟩
  | cons env rest ih =>
    by_cases hlt : s.control.queue.length < s.control.maxSize
    · have hstep : ofFun (step worker) s (.push worker env true none) (pushed worker s env) := by
        rw [ofFun, step_push_eq hq hidle hlt (by simp [htodo]), if_pos rfl]
      have hp := hq.pushed worker env
      obtain ⟨tr, s', hr, hnil, hend⟩ := ih hp.1 hp.2 (by simp [pushed, htodo])
      refine ⟨_, s', ((Run.nil s).snoc hstep).append hr, hnil, ?_⟩
      obtain ⟨k, hk⟩ : ∃ k, s.control.maxSize - s.control.queue.length = k + 1 :=
        Nat.exists_eq_succ_of_ne_zero (by omega)
      have hk' : s.control.maxSize - (s.control.queue.length + 1) = k := by omega
      rw [hend, htodo, hk]
      simp [pushed, htodo, done, hk']
    · obtain ⟨tr, s', hr, ht, hcontent, hmax, hq', hidle'⟩ :=
        exists_run_full hq hidle (Nat.le_of_not_lt hlt) htodo
      obtain ⟨tr', s'', hr', hnil, hend⟩ := ih hq' hidle' ht
      refine ⟨tr ++ tr', s'', hr.append hr', hnil, ?_⟩
      have hzero : s.control.maxSize - s.control.queue.length = 0 := by omega
      rw [hend, hcontent, hmax, hzero, List.take_zero, List.take_zero]

end

theorem nodup_onlineEnvelopes (m : ConnectionManager κ) : m.onlineEnvelopes.Nodup := by
  have htopics : m.topics.Nodup :=
    (List.perm_insertionSort _ _).nodup_iff.mpr m.msgHandlers.keys_nodup
  rw [ConnectionManager.onlineEnvelopes, List.nodup_cons]
  constructor
  · intro h
    obtain ⟨topic, -, he⟩ := List.mem_map.mp h
    have hkey : Keys.subscribe = Keys.connect := congrArg Envelope.key he
    exact absurd hkey (by decide)
  · refine htopics.map fun topic topic' he => ?_
    exact congrArg (fun env : Envelope => env.header.topic) he

theorem exists_topic_lost (m : ConnectionManager κ) {n : ℕ} (hn : 0 < n)
    (hlt : n < 1 + m.topics.length) : ∃ topic ∈ m.msgHandlers,
      createControlEnvelope Keys.subscribe m.clientId topic ∉ m.onlineEnvelopes.take n := by
  have hdrop : m.onlineEnvelopes.drop n ≠ [] := by
    rw [Ne, List.drop_eq_nil_iff, ConnectionManager.onlineEnvelopes, List.length_cons,
      List.length_map]
    omega
  obtain ⟨env, henv⟩ := List.exists_mem_of_ne_nil _ hdrop
  have hnot : env ∉ m.onlineEnvelopes.take n := fun h =>
    List.disjoint_take_drop (nodup_onlineEnvelopes m) (Nat.le_refl n) h henv
  obtain ⟨k, rfl⟩ := Nat.exists_eq_succ_of_ne_zero (Nat.pos_iff_ne_zero.mp hn)
  obtain ⟨topic, htopic, rfl⟩ := List.mem_map.mp (List.mem_of_mem_drop henv)
  exact ⟨topic, (m.mem_topics topic).mp htopic, hnot⟩

def crowded : ConnectionManager Unit where
  clientId := "c"
  msgHandlers :=
    { entries := (List.range 5000).map fun i => ⟨String.ofList (List.replicate i 'a'), [⟨0, ()⟩]⟩
      nodupKeys := by
        rw [List.NodupKeys, List.keys, List.map_map]
        refine List.Nodup.map (fun i j h => ?_) List.nodup_range
        simpa using congrArg String.length h }

/-- The control queue is empty, and yet the last SUBSCRIBE finds no room. -/
theorem statusHandler_loses_subscription :
    Ready 0 ({} : SafeQueue Envelope ℕ) ∧
    ∃ tr s, Run (ofFun (step 0)) ⟨({} : SafeQueue Envelope ℕ), crowded.onlineEnvelopes⟩ tr s ∧
      s.todo = [] ∧ ∃ topic ∈ crowded.msgHandlers,
        createControlEnvelope Keys.subscribe crowded.clientId topic ∉ s.control.queue := by
  have hready : Ready 0 ({} : SafeQueue Envelope ℕ) := ⟨⟨rfl, fun _ => nofun, rfl⟩, rfl, rfl⟩
  have htopics : crowded.topics.length = 5000 := by
    simp [ConnectionManager.topics, crowded, AList.keys, List.keys]
  refine ⟨hready, ?_⟩
  obtain ⟨tr, s, hr, hnil, hend⟩ :=
    exists_run_alone (s := ⟨{}, crowded.onlineEnvelopes⟩) hready.quiet hready.idle
  refine ⟨tr, s, hr, hnil, ?_⟩
  have hqueue : s.control.queue = crowded.onlineEnvelopes.take 5000 := hend
  rw [hqueue]
  exact exists_topic_lost crowded (by decide) (by rw [htopics]; decide)

end StatusCallback

end ZmqPubSub
