import Mathlib.Data.List.Basic
import ZmqPubSub.ConnectionManager
import ZmqPubSub.TransitionSystem

/-!
The loop of `ZmqWorker::run` over its two queues, one `try_pop` a step, together with the threads
that write to the queues. A call of `wire::send` does not wait: what a full pipe refuses is gone.
-/

namespace ZmqPubSub

open Containers TransitionSystem

inductive WorkerPhase
  /-- At `while (m_running)`. -/
  | head
  | poll
  | control
  | outbound
  | timers
  | finalDrain
  | closed
deriving DecidableEq, Repr

inductive Sent (α : Type*)
  | heartbeat
  | message (x : α)
deriving DecidableEq, Repr

structure ZmqWorker (α : Type*) where
  running : Bool := true
  phase : WorkerPhase := .head
  controlQueue : List α := []
  outboundQueue : List α := []
  /-- What the socket has accepted, and what it has refused. No step reads the latter. -/
  wire : List (Sent α) := []
  refused : List (Sent α) := []
deriving DecidableEq, Repr

namespace ZmqWorker

variable {α : Type*} (w : ZmqWorker α)

/-- The capacity of the two queues. -/
def maxSize : ℕ := 5000

/-- `none` where the timed `push` returns false. -/
def writeControlMessage (x : α) : Option (ZmqWorker α) :=
  if w.controlQueue.length < maxSize then some { w with controlQueue := w.controlQueue ++ [x] }
  else none

def writeMessage (x : α) : Option (ZmqWorker α) :=
  if w.outboundQueue.length < maxSize then some { w with outboundQueue := w.outboundQueue ++ [x] }
  else none

/-- `wire::send`, whose result the worker ignores. -/
def send (accepted : Bool) (x : Sent α) : ZmqWorker α :=
  match accepted with
  | true => { w with wire := w.wire ++ [x] }
  | false => { w with refused := w.refused ++ [x] }

/-- One step of the worker thread; `accepted` is what `wire::send` returns in it, if it is called. A
message it receives while it polls is not part of it. -/
def turn (heartbeatDue accepted : Bool) : Option (ZmqWorker α) :=
  match w.phase with
  | .head => some { w with phase := if w.running then .poll else .finalDrain }
  | .poll => some { w with phase := .control }
  | .control =>
    match w.controlQueue with
    | [] => some { w with phase := .outbound }
    | x :: rest => some (send { w with controlQueue := rest } accepted (.message x))
  | .outbound =>
    match w.outboundQueue with
    | [] => some { w with phase := .timers }
    | x :: rest => some (send { w with outboundQueue := rest } accepted (.message x))
  | .timers =>
    if heartbeatDue then some (send { w with phase := .head } accepted .heartbeat)
    else some { w with phase := .head }
  | .finalDrain =>
    match w.controlQueue with
    | [] => some { w with phase := .closed }
    | x :: rest => some (send { w with controlQueue := rest } accepted (.message x))
  | .closed => none

def stop : ZmqWorker α := { w with running := false }

inductive Turns (w : ZmqWorker α) (heartbeatDue accepted : Bool) : ZmqWorker α → Prop
  | enter : w.phase = .head → w.running = true →
      Turns w heartbeatDue accepted { w with phase := .poll }
  | leave : w.phase = .head → w.running = false →
      Turns w heartbeatDue accepted { w with phase := .finalDrain }
  | polled : w.phase = .poll → Turns w heartbeatDue accepted { w with phase := .control }
  | controlEmpty : w.phase = .control → w.controlQueue = [] →
      Turns w heartbeatDue accepted { w with phase := .outbound }
  | sendControl {x : α} {rest : List α} : w.phase = .control ∨ w.phase = .finalDrain →
      w.controlQueue = x :: rest →
      Turns w heartbeatDue accepted (send { w with controlQueue := rest } accepted (.message x))
  | outboundEmpty : w.phase = .outbound → w.outboundQueue = [] →
      Turns w heartbeatDue accepted { w with phase := .timers }
  | sendOutbound {x : α} {rest : List α} : w.phase = .outbound → w.outboundQueue = x :: rest →
      Turns w heartbeatDue accepted (send { w with outboundQueue := rest } accepted (.message x))
  | notDue : w.phase = .timers → heartbeatDue = false →
      Turns w heartbeatDue accepted { w with phase := .head }
  | heartbeat : w.phase = .timers → heartbeatDue = true →
      Turns w heartbeatDue accepted (send { w with phase := .head } accepted .heartbeat)
  | close : w.phase = .finalDrain → w.controlQueue = [] →
      Turns w heartbeatDue accepted { w with phase := .closed }

variable {w} {w' : ZmqWorker α} {heartbeatDue accepted : Bool}

theorem turn_turns (h : w.turn heartbeatDue accepted = some w') :
    Turns w heartbeatDue accepted w' := by
  unfold turn at h
  split at h
  · next hp =>
    cases h
    split_ifs with hr
    · exact .enter hp hr
    · exact .leave hp (Bool.eq_false_iff.mpr hr)
  · next hp =>
    cases h
    exact .polled hp
  · next hp =>
    split at h
    · next hq =>
      cases h
      exact .controlEmpty hp hq
    · next hq =>
      cases h
      exact .sendControl (.inl hp) hq
  · next hp =>
    split at h
    · next hq =>
      cases h
      exact .outboundEmpty hp hq
    · next hq =>
      cases h
      exact .sendOutbound hp hq
  · next hp =>
    split_ifs at h with hd
    · cases h
      exact .heartbeat hp hd
    · cases h
      exact .notDue hp (Bool.eq_false_iff.mpr hd)
  · next hp =>
    split at h
    · next hq =>
      cases h
      exact .close hp hq
    · next hq =>
      cases h
      exact .sendControl (.inr hp) hq
  · cases h

@[simp] theorem send_phase (accepted : Bool) (x : Sent α) :
    (w.send accepted x).phase = w.phase := by
  cases accepted <;> rfl

@[simp] theorem send_controlQueue (accepted : Bool) (x : Sent α) :
    (w.send accepted x).controlQueue = w.controlQueue := by
  cases accepted <;> rfl

@[simp] theorem send_outboundQueue (accepted : Bool) (x : Sent α) :
    (w.send accepted x).outboundQueue = w.outboundQueue := by
  cases accepted <;> rfl

end ZmqWorker

/-- A write that returned true: its thread, its queue, and its place among all of them. -/
structure Entry (τ α : Type*) where
  thread : τ
  isControl : Bool
  seq : ℕ
  msg : α
deriving DecidableEq, Repr

/-- Threads that write to a running worker. -/
structure Writers (τ α : Type*) where
  worker : ZmqWorker (Entry τ α) := {}
  accepted : List (Entry τ α) := []
deriving DecidableEq, Repr

namespace Writers

variable {τ α : Type*}

inductive Event (τ α : Type*)
  | write (thread : τ) (isControl : Bool) (msg : α)
  | turn (heartbeatDue accepted : Bool)
  | stop
deriving DecidableEq, Repr

/-- A write that returns false changes nothing and is no event. -/
def step (s : Writers τ α) : Event τ α → Option (Writers τ α)
  | .write thread isControl msg =>
    let entry : Entry τ α := ⟨thread, isControl, s.accepted.length, msg⟩
    let worker :=
      if isControl then s.worker.writeControlMessage entry else s.worker.writeMessage entry
    worker.map fun worker => { worker := worker, accepted := s.accepted ++ [entry] }
  | .turn heartbeatDue accepted =>
    (s.worker.turn heartbeatDue accepted).map fun worker => { s with worker := worker }
  | .stop => some { s with worker := s.worker.stop }

/-- The writes among what was given to `wire::send`. -/
def entries (sends : List (Sent (Entry τ α))) : List (Entry τ α) :=
  sends.filterMap fun | .heartbeat => none | .message e => some e

theorem mem_entries {sends : List (Sent (Entry τ α))} {e : Entry τ α} :
    e ∈ entries sends ↔ .message e ∈ sends := by
  simp only [entries, List.mem_filterMap]
  constructor
  · rintro ⟨x, hx, he⟩
    cases x with
    | heartbeat => cases he
    | message y =>
      cases he
      exact hx
  · exact fun h => ⟨_, h, rfl⟩

/-- Where the accepted writes are. -/
def places (s : Writers τ α) : List (Entry τ α) :=
  s.worker.controlQueue ++ s.worker.outboundQueue ++ entries s.worker.wire ++
    entries s.worker.refused

/-- Each write is in one place. -/
structure Settled (s : Writers τ α) : Prop where
  seq : ∀ e ∈ s.accepted, e.seq < s.accepted.length
  nodup : s.accepted.Nodup
  control : ∀ e ∈ s.worker.controlQueue, e.isControl = true
  outbound : ∀ e ∈ s.worker.outboundQueue, e.isControl = false
  places : s.places.Perm s.accepted

variable {s s' : Writers τ α} {c d : Entry τ α}

theorem entries_append_message (sends : List (Sent (Entry τ α))) (e : Entry τ α) :
    entries (sends ++ [.message e]) = entries sends ++ [e] := by
  simp [entries]

theorem entries_append_heartbeat (sends : List (Sent (Entry τ α))) :
    entries (sends ++ [.heartbeat]) = entries sends := by
  simp [entries]

theorem places_send (w : ZmqWorker (Entry τ α)) (accepted : List (Entry τ α)) (went : Bool)
    (e : Entry τ α) :
    (⟨w.send went (.message e), accepted⟩ : Writers τ α).places.Perm
      (e :: (⟨w, accepted⟩ : Writers τ α).places) := by
  classical
  cases went <;>
  · simp only [Writers.places, ZmqWorker.send, entries_append_message]
    rw [List.perm_iff_count]
    intro x
    simp only [List.count_append, List.count_cons, List.count_nil]
    omega

theorem Settled.turn (h : s.Settled) {heartbeatDue accepted : Bool}
    {worker : ZmqWorker (Entry τ α)} (ht : s.worker.turn heartbeatDue accepted = some worker) :
    ({ s with worker := worker } : Writers τ α).Settled := by
  obtain ⟨hseq, hnodup, hcontrol, houtbound, hplaces⟩ := h
  cases ZmqWorker.turn_turns ht with
  | enter | leave | polled | controlEmpty | outboundEmpty | notDue | close =>
    exact ⟨hseq, hnodup, hcontrol, houtbound, hplaces⟩
  | @sendControl x rest hp hq =>
    refine ⟨hseq, hnodup, ?_, by simpa using houtbound, (places_send _ _ _ _).trans ?_⟩
    · intro e he
      rw [ZmqWorker.send_controlQueue] at he
      exact hcontrol e (hq ▸ List.mem_cons_of_mem x he)
    · rw [Writers.places, hq] at hplaces
      exact hplaces
  | @sendOutbound x rest hp hq =>
    refine ⟨hseq, hnodup, by simpa using hcontrol, ?_, (places_send _ _ _ _).trans ?_⟩
    · intro e he
      rw [ZmqWorker.send_outboundQueue] at he
      exact houtbound e (hq ▸ List.mem_cons_of_mem x he)
    · rw [Writers.places, hq] at hplaces
      refine List.Perm.trans ?_ hplaces
      simp only [Writers.places, List.append_assoc, List.cons_append]
      exact List.perm_middle.symm
  | heartbeat =>
    refine ⟨hseq, hnodup, by simpa using hcontrol, by simpa using houtbound, ?_⟩
    cases accepted <;>
    · simp only [Writers.places, ZmqWorker.send, entries_append_heartbeat]
      exact hplaces

theorem step_write {thread : τ} {isControl : Bool} {msg : α}
    (hs : s.step (.write thread isControl msg) = some s') {entry : Entry τ α}
    (he : entry = ⟨thread, isControl, s.accepted.length, msg⟩) :
    s' = { worker := { s.worker with
             controlQueue := s.worker.controlQueue ++ if isControl then [entry] else []
             outboundQueue := s.worker.outboundQueue ++ if isControl then [] else [entry] }
           accepted := s.accepted ++ [entry] } := by
  subst he
  obtain ⟨worker, hw, rfl⟩ := Option.map_eq_some_iff.mp hs
  cases isControl with
  | true =>
    simp only [if_true, ZmqWorker.writeControlMessage, Option.ite_none_right_eq_some,
      Option.some.injEq] at hw
    simp [← hw.2]
  | false =>
    simp only [Bool.false_eq_true, if_false, ZmqWorker.writeMessage,
      Option.ite_none_right_eq_some, Option.some.injEq] at hw
    simp [← hw.2]

theorem Settled.not_mem_accepted (h : s.Settled) {e : Entry τ α} (he : e.seq = s.accepted.length) :
    e ∉ s.accepted :=
  fun hmem => absurd (h.seq e hmem) (by omega)

theorem Settled.write (h : s.Settled) {thread : τ} {isControl : Bool} {msg : α}
    (hs : s.step (.write thread isControl msg) = some s') : s'.Settled := by
  obtain ⟨entry, he⟩ : ∃ entry : Entry τ α,
    entry = ⟨thread, isControl, s.accepted.length, msg⟩ := ⟨_, rfl⟩
  have hlast : entry.seq = s.accepted.length := by rw [he]
  have hkind : entry.isControl = isControl := by rw [he]
  have hnew := h.not_mem_accepted hlast
  obtain ⟨hseq, hnodup, hcontrol, houtbound, hplaces⟩ := h
  rw [step_write hs he]
  refine ⟨?_, ?_, ?_, ?_, ?_⟩
  · intro e hmem
    rw [List.length_append, List.length_singleton]
    rcases List.mem_append.mp hmem with hmem | hmem
    · exact Nat.lt_succ_of_lt (hseq e hmem)
    · rw [List.mem_singleton.mp hmem]
      omega
  · rw [← List.concat_eq_append]
    exact hnodup.concat hnew
  · intro e hmem
    rcases List.mem_append.mp hmem with hmem | hmem
    · exact hcontrol e hmem
    · cases isControl with
      | true => rw [List.mem_singleton.mp hmem, hkind]
      | false => cases hmem
  · intro e hmem
    rcases List.mem_append.mp hmem with hmem | hmem
    · exact houtbound e hmem
    · cases isControl with
      | true => cases hmem
      | false => rw [List.mem_singleton.mp hmem, hkind]
  · classical
    rw [List.perm_iff_count] at hplaces ⊢
    intro e
    have hcount := hplaces e
    simp only [Writers.places, List.count_append] at hcount ⊢
    cases isControl <;>
    · simp only [if_true, Bool.false_eq_true, if_false, List.count_nil]
      omega

theorem Settled.step (h : s.Settled) {e : Event τ α} (hs : s.step e = some s') : s'.Settled := by
  cases e with
  | write thread isControl msg => exact h.write hs
  | turn heartbeatDue accepted =>
    obtain ⟨worker, hw, rfl⟩ := Option.map_eq_some_iff.mp hs
    exact h.turn hw
  | stop =>
    cases hs
    exact ⟨h.seq, h.nodup, h.control, h.outbound, h.places⟩

theorem settled_initial : ({} : Writers τ α).Settled :=
  ⟨by simp, List.nodup_nil, by simp, by simp, List.Perm.refl _⟩

theorem Settled.mem_accepted (h : s.Settled) {e : Entry τ α} :
    e ∈ s.accepted ↔ e ∈ s.worker.controlQueue ∨ e ∈ s.worker.outboundQueue ∨
      .message e ∈ s.worker.wire ∨ .message e ∈ s.worker.refused := by
  rw [← h.places.mem_iff]
  simp only [Writers.places, List.mem_append, mem_entries, or_assoc]

theorem Settled.not_mem_controlQueue (h : s.Settled) (hd : d.isControl = false) :
    d ∉ s.worker.controlQueue :=
  fun hmem => absurd ((h.control d hmem).symm.trans hd) (by decide)

theorem Settled.not_mem_outboundQueue (h : s.Settled) (hc : c.isControl = true) :
    c ∉ s.worker.outboundQueue :=
  fun hmem => absurd (hc.symm.trans (h.outbound c hmem)) (by decide)

theorem Settled.places_nodup (h : s.Settled) : s.places.Nodup := h.places.nodup_iff.mpr h.nodup

theorem Settled.not_sent_of_control (h : s.Settled) (hc : c ∈ s.worker.controlQueue) :
    .message c ∉ s.worker.wire := by
  have hd := (List.nodup_append.mp (List.nodup_append.mp h.places_nodup).1).2.2
  exact fun hw => hd c (List.mem_append_left _ hc) c (mem_entries.mpr hw) rfl

theorem Settled.not_sent_of_outbound (h : s.Settled) (hd : d ∈ s.worker.outboundQueue) :
    .message d ∉ s.worker.wire := by
  have hn := (List.nodup_append.mp (List.nodup_append.mp h.places_nodup).1).2.2
  exact fun hw => hn d (List.mem_append_right _ hd) d (mem_entries.mpr hw) rfl

theorem Settled.not_refused_of_sent (h : s.Settled) (hw : .message c ∈ s.worker.wire) :
    .message c ∉ s.worker.refused := by
  have hd := (List.nodup_append.mp h.places_nodup).2.2
  exact fun hr => hd c (List.mem_append_right _ (mem_entries.mpr hw)) c (mem_entries.mpr hr) rfl

theorem Settled.outbound_nodup (h : s.Settled) : s.worker.outboundQueue.Nodup :=
  (List.nodup_append.mp (List.nodup_append.mp (List.nodup_append.mp h.places_nodup).1).1).2.1

/-- What is on the wire before `d`, if `d` is there. -/
def Before (wire : List (Sent (Entry τ α))) (d : Entry τ α)
    (P : List (Sent (Entry τ α)) → Prop) : Prop :=
  ∀ before after, wire = before ++ .message d :: after → P before

section

variable {P Q : List (Sent (Entry τ α)) → Prop} {wire : List (Sent (Entry τ α))}

theorem before_of_not_mem (h : .message d ∉ wire) :
    Before wire d P := by
  rintro before after rfl
  exact absurd (List.mem_append_right _ List.mem_cons_self) h

theorem Before.mono (h : Before wire d P)
    (hPQ : ∀ before, P before → Q before) : Before wire d Q :=
  fun before after hw => hPQ before (h before after hw)

theorem Before.send (h : Before wire d P) {w : ZmqWorker (Entry τ α)} (hw : w.wire = wire)
    {y : Sent (Entry τ α)} (hy : y = .message d → P wire) (accepted : Bool) :
    Before (w.send accepted y).wire d P := by
  subst hw
  cases accepted with
  | false => exact h
  | true =>
    intro before after hw
    rcases append_singleton_eq hw with ⟨rfl, hd⟩ | ⟨after', hw⟩
    · exact hy hd.symm
    · exact h before after' hw

end

theorem mem_refused_send {w : ZmqWorker (Entry τ α)} {x : Sent (Entry τ α)} (accepted : Bool)
    (y : Sent (Entry τ α)) (h : x ∈ w.refused) : x ∈ (w.send accepted y).refused := by
  cases accepted with
  | true => exact h
  | false => exact List.mem_append_left _ h

/-- `c` is taken from its queue before `d`. -/
structure Ahead (c d : Entry τ α) (s : Writers τ α) : Prop where
  waits : c ∈ s.worker.controlQueue → s.worker.phase ≠ .outbound
  order : Before s.worker.wire d fun before =>
    .message c ∈ before ∨ .message c ∈ s.worker.refused

theorem Ahead.send (h : Ahead c d s) {w : ZmqWorker (Entry τ α)} {y : Sent (Entry τ α)}
    {accepted : Bool} (hw : w.wire = s.worker.wire) (hr : w.refused = s.worker.refused)
    (hp : c ∈ w.controlQueue → w.phase ≠ .outbound)
    (hy : y = .message d → .message c ∈ s.worker.wire ∨ .message c ∈ s.worker.refused) :
    Ahead c d { s with worker := w.send accepted y } where
  waits := by simpa using hp
  order := by
    refine (h.order.send hw hy accepted).mono fun before => Or.imp_right fun hmem => ?_
    exact mem_refused_send accepted y (hr ▸ hmem)

/-- The control queue is drained to its end before the other one is looked at. -/
theorem Ahead.turn (h : Ahead c d s) (hs : s.Settled) (hc : c ∈ s.accepted)
    (hcc : c.isControl = true) (hdc : d.isControl = false) {heartbeatDue accepted : Bool}
    {worker : ZmqWorker (Entry τ α)} (ht : s.worker.turn heartbeatDue accepted = some worker) :
    Ahead c d { s with worker := worker } := by
  cases ZmqWorker.turn_turns ht with
  | enter | leave | polled | outboundEmpty | notDue | close => exact ⟨by simp, h.order⟩
  | controlEmpty _ hq => exact ⟨by simp [hq], h.order⟩
  | @sendControl x rest hp hq =>
    refine h.send rfl rfl (fun _ => ?_) fun hx => ?_
    · rcases hp with hp | hp <;> simp [hp]
    · cases hx
      exact absurd (hq ▸ List.mem_cons_self) (hs.not_mem_controlQueue hdc)
  | @sendOutbound x rest hp hq =>
    refine h.send rfl rfl h.waits fun _ => ?_
    rcases hs.mem_accepted.mp hc with hq' | ho | hsent
    · exact absurd hp (h.waits hq')
    · exact absurd ho (hs.not_mem_outboundQueue hcc)
    · exact hsent
  | heartbeat => exact h.send rfl rfl (by simp) (by simp)

theorem Ahead.step (h : Ahead c d s) (hs : s.Settled) (hc : c ∈ s.accepted)
    (hcc : c.isControl = true) (hdc : d.isControl = false) {e : Event τ α}
    (he : s.step e = some s') : Ahead c d s' := by
  cases e with
  | write thread isControl msg =>
    rw [step_write he rfl]
    refine ⟨fun hmem => ?_, h.order⟩
    rcases List.mem_append.mp hmem with hmem | hmem
    · exact h.waits hmem
    · split_ifs at hmem
      · rw [List.mem_singleton.mp hmem] at hc
        exact absurd hc (hs.not_mem_accepted rfl)
      · cases hmem
  | turn heartbeatDue accepted =>
    obtain ⟨worker, hw, rfl⟩ := Option.map_eq_some_iff.mp he
    exact h.turn hs hc hcc hdc hw
  | stop =>
    cases he
    exact ⟨h.waits, h.order⟩

/-- `d` is in the queue that is being drained, and `c` has to wait; or `d` has gone. -/
def Behind (c d : Entry τ α) (s : Writers τ α) : Prop :=
  (d ∈ s.worker.outboundQueue ∧ s.worker.phase = .outbound ∧ c ∈ s.worker.controlQueue) ∨
  (d ∉ s.worker.outboundQueue ∧ Before s.worker.wire d (.message c ∉ ·))

theorem Behind.turn (h : Behind c d s) (hs : s.Settled) (hdc : d.isControl = false)
    {heartbeatDue accepted : Bool} {worker : ZmqWorker (Entry τ α)}
    (ht : s.worker.turn heartbeatDue accepted = some worker) :
    Behind c d { s with worker := worker } := by
  rcases h with ⟨hd, hp, hc⟩ | ⟨hd, hb⟩
  · cases ZmqWorker.turn_turns ht with
    | enter hp' | leave hp' | polled hp' | controlEmpty hp' | notDue hp' | heartbeat hp'
    | close hp' => exact absurd (hp.symm.trans hp') (by decide)
    | sendControl hp' => rcases hp' with hp' | hp' <;> exact absurd (hp.symm.trans hp') (by decide)
    | outboundEmpty _ hq =>
      rw [hq] at hd
      cases hd
    | @sendOutbound x rest _ hq =>
      have hn := hs.outbound_nodup
      rw [hq, List.nodup_cons] at hn
      rw [hq, List.mem_cons] at hd
      rcases hd with rfl | hd
      · -- this is the `d` of the drain, and `c` has not been sent
        have hout : d ∈ s.worker.outboundQueue := hq ▸ List.mem_cons_self
        refine .inr ⟨by simpa using hn.1, ?_⟩
        have hb : Before s.worker.wire d (.message c ∉ ·) :=
          before_of_not_mem (hs.not_sent_of_outbound hout)
        exact hb.send (by rfl) (fun _ => hs.not_sent_of_control hc) accepted
      · exact .inl (by simpa using ⟨hd, hp, hc⟩)
  · refine .inr ?_
    cases ZmqWorker.turn_turns ht with
    | enter | leave | polled | controlEmpty | outboundEmpty | notDue | close => exact ⟨hd, hb⟩
    | @sendControl x rest hp hq =>
      refine ⟨by simpa using hd, hb.send (by rfl) (fun hx => ?_) accepted⟩
      cases hx
      exact absurd (hq ▸ List.mem_cons_self) (hs.not_mem_controlQueue hdc)
    | @sendOutbound x rest hp hq =>
      rw [hq] at hd
      refine ⟨?_, hb.send (by rfl) (fun hx => ?_) accepted⟩
      · rw [ZmqWorker.send_outboundQueue]
        exact fun hmem => hd (List.mem_cons_of_mem x hmem)
      · cases hx
        exact absurd List.mem_cons_self hd
    | heartbeat => exact ⟨by simpa using hd, hb.send (by rfl) (by simp) accepted⟩

theorem Behind.step (h : Behind c d s) (hs : s.Settled) (hd : d ∈ s.accepted)
    (hdc : d.isControl = false) {e : Event τ α} (he : s.step e = some s') : Behind c d s' := by
  cases e with
  | write thread isControl msg =>
    rw [step_write he rfl]
    rcases h with ⟨hq, hp, hc⟩ | ⟨hq, hb⟩
    · exact .inl ⟨List.mem_append_left _ hq, hp, List.mem_append_left _ hc⟩
    · refine .inr ⟨fun hmem => ?_, hb⟩
      rcases List.mem_append.mp hmem with hmem | hmem
      · exact hq hmem
      · split_ifs at hmem
        · cases hmem
        · rw [List.mem_singleton.mp hmem] at hd
          exact absurd hd (hs.not_mem_accepted rfl)
  | turn heartbeatDue accepted =>
    obtain ⟨worker, hw, rfl⟩ := Option.map_eq_some_iff.mp he
    exact h.turn hs hdc hw
  | stop =>
    cases he
    exact h

theorem settled_of_run {tr : List (Event τ α × Writers τ α)} (hr : Run (ofFun step) {} tr s) :
    s.Settled :=
  hr.invariant (P := Settled) settled_initial fun _ _ _ h hs => h.step hs

theorem accepted_step {e : Event τ α} (hs : s.step e = some s') (hc : c ∈ s.accepted) :
    c ∈ s'.accepted := by
  cases e with
  | write thread isControl msg =>
    rw [step_write hs rfl]
    exact List.mem_append_left _ hc
  | turn heartbeatDue accepted =>
    obtain ⟨worker, hw, rfl⟩ := Option.map_eq_some_iff.mp hs
    exact hc
  | stop =>
    cases hs
    exact hc

variable {s₁ s₂ : Writers τ α} {tr₁ tr₂ : List (Event τ α × Writers τ α)}

theorem ahead_of_run (hs : s₂.Settled) (hc : c ∈ s₂.accepted) (hcc : c.isControl = true)
    (hdc : d.isControl = false) (h : Ahead c d s₂) (hr : Run (ofFun step) s₂ tr₂ s) :
    Ahead c d s := by
  have hinv := hr.invariant (P := fun s => s.Settled ∧ c ∈ s.accepted ∧ Ahead c d s) ⟨hs, hc, h⟩
    fun _ _ _ h he => ⟨h.1.step he, accepted_step he h.2.1, h.2.2.step h.1 h.2.1 hcc hdc he⟩
  exact hinv.2.2

theorem behind_of_run (hs : s₂.Settled) (hd : d ∈ s₂.accepted) (hdc : d.isControl = false)
    (h : Behind c d s₂) (hr : Run (ofFun step) s₂ tr₂ s) : Behind c d s := by
  have hinv := hr.invariant (P := fun s => s.Settled ∧ d ∈ s.accepted ∧ Behind c d s) ⟨hs, hd, h⟩
    fun _ _ _ h he => ⟨h.1.step he, accepted_step he h.2.1, h.2.2.step h.1 h.2.1 hdc he⟩
  exact hinv.2.2

/-- When data is put on the socket, a control message that was written before it has been put there
exactly if the socket accepted it and the data was not written while the worker drained the outbound
queue with the control message still in the other one. -/
theorem control_before_data_iff (hr₁ : Run (ofFun step) {} tr₁ s₁) (hc : c ∈ s₁.accepted)
    (hcc : c.isControl = true) {thread : τ} {msg : α}
    (hw : s₁.step (.write thread false msg) = some s₂) (hr₂ : Run (ofFun step) s₂ tr₂ s)
    {before after : List (Sent (Entry τ α))}
    (hd : s.worker.wire = before ++ .message ⟨thread, false, s₁.accepted.length, msg⟩ :: after) :
    .message c ∈ before ↔
      ¬ (s₁.worker.phase = .outbound ∧ c ∈ s₁.worker.controlQueue) ∧
        .message c ∉ s.worker.refused := by
  obtain ⟨d, hnew⟩ : ∃ d : Entry τ α, d = ⟨thread, false, s₁.accepted.length, msg⟩ := ⟨_, rfl⟩
  rw [← hnew] at hd
  have hdc : d.isControl = false := by rw [hnew]
  have hs₂ := (settled_of_run hr₁).step hw
  have hs : s.Settled := hr₂.invariant (P := Settled) hs₂ fun _ _ _ h he => h.step he
  have hw₂ := step_write hw hnew
  by_cases hlate : s₁.worker.phase = .outbound ∧ c ∈ s₁.worker.controlQueue
  · -- the drain that is under way takes `d`, and then `c` has its turn
    have h₂ : Behind c d s₂ := .inl (by simp [hw₂, hlate])
    rcases behind_of_run hs₂ (by simp [hw₂]) hdc h₂ hr₂ with ⟨hout, -, -⟩ | ⟨-, hb⟩
    · have hdw : .message d ∈ s.worker.wire := hd ▸ List.mem_append_right _ List.mem_cons_self
      exact absurd hdw (hs.not_sent_of_outbound hout)
    · exact iff_of_false (hb before after hd) fun hn => hn.1 hlate
  · have h₂ : Ahead c d s₂ := by
      refine ⟨fun hmem hp => hlate ⟨?_, ?_⟩, ?_⟩
      · rwa [hw₂] at hp
      · simpa [hw₂] using hmem
      · exact before_of_not_mem (hs₂.not_sent_of_outbound (by simp [hw₂]))
    have h := ahead_of_run hs₂ (accepted_step hw hc) hcc hdc h₂ hr₂
    constructor
    · intro hmem
      exact ⟨hlate, hs.not_refused_of_sent (hd ▸ List.mem_append_left _ hmem)⟩
    · rintro ⟨-, hnot⟩
      exact (h.order before after hd).resolve_right hnot

def subscribeReply : Envelope := createControlEnvelope Keys.subscribe "client-a" "time-reply"

def timeRequest : Envelope :=
  ConnectionManager.requestEnvelope ({ clientId := "client-a" } : ConnectionManager Unit) "time"
    "time-reply" []

def subscribeWhilePolling : List (Event ℕ Envelope) :=
  [.turn false true, .write 0 true subscribeReply]

def subscribing : Writers ℕ Envelope :=
  (exec step {} subscribeWhilePolling).get (by decide +kernel)

def requesting : Writers ℕ Envelope :=
  (subscribing.step (.write 0 false timeRequest)).get (by decide +kernel)

def requested : Writers ℕ Envelope :=
  (exec step requesting (List.replicate 4 (.turn false true))).get (by decide +kernel)

theorem control_before_data_iff_request :
    let c : Entry ℕ Envelope := ⟨0, true, 0, subscribeReply⟩
    let d : Entry ℕ Envelope := ⟨0, false, 1, timeRequest⟩
    ∃ before after, requested.worker.wire = before ++ .message d :: after ∧
      Sent.message c ∈ before := by
  intro c d
  have hs₁ : exec step {} subscribeWhilePolling = some subscribing := by simp [subscribing]
  have hs₂ : subscribing.step (.write 0 false timeRequest) = some requesting := by
    simp [requesting]
  have hs : exec step requesting (List.replicate 4 (.turn false true)) = some requested := by
    simp [requested]
  have hw : requested.worker.wire = [.message c] ++ .message d :: [] := by decide +kernel
  exact ⟨_, _, hw, (control_before_data_iff (exec_run hs₁) (by decide +kernel) rfl hs₂
    (exec_run hs) hw).mpr ⟨by decide +kernel, by decide +kernel⟩⟩

/-- The thread writes both while the worker drains the outbound queue. -/
def requestWhileDraining : List (Event ℕ Envelope) :=
  List.replicate 3 (.turn false true) ++
    [.write 0 true subscribeReply, .write 0 false timeRequest] ++
    List.replicate 6 (.turn false true)

/-- The request then goes out before the subscription to its reply topic. -/
theorem request_overtakes_subscribe :
    let c : Entry ℕ Envelope := ⟨0, true, 0, subscribeReply⟩
    let d : Entry ℕ Envelope := ⟨0, false, 1, timeRequest⟩
    ∃ s, Reachable (· = {}) (ofFun step) s ∧ s.accepted = [c, d] ∧
      s.worker.wire = [.message d, .message c] := by
  intro c d
  have h : (exec step {} requestWhileDraining).isSome = true := by decide +kernel
  obtain ⟨s, hs⟩ := Option.isSome_iff_exists.mp h
  have hp : ∀ s ∈ exec step {} requestWhileDraining,
      s.accepted = [c, d] ∧ s.worker.wire = [.message d, .message c] := by decide +kernel
  exact ⟨s, ⟨{}, _, rfl, exec_run hs⟩, hp s hs⟩

end Writers

end ZmqPubSub
