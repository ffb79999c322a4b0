import Mathlib.Data.List.Basic
import ZmqPubSub.TransitionSystem

/-!
The `shared_ptr` to one `ConnectionManager`: who holds a reference, the use count, and the thread
that drops the last one and so runs the destructor, which joins the processing thread.
-/

namespace ZmqPubSub

open TransitionSystem

inductive Thread
  | processing
  | other (id : ℕ)
deriving DecidableEq, Repr

inductive ProcessingThread
  | looping
  /-- In `handleMessage`, running callbacks. -/
  | inCallback
  | exited
deriving DecidableEq, Repr

structure SharedInstance where
  /-- `m_instance` points to the manager. -/
  published : Bool := true
  /-- The thread whose `shutdown` holds a reference in `tmp`. -/
  tmp : Option Thread := none
  /-- The threads that hold one in the `self` of an API call, once for each call. -/
  snapshots : List Thread := []
  useCount : ℕ := 1
  running : Bool := true
  processingThread : ProcessingThread := .looping
  /-- The thread on which the destructor runs. -/
  destroyedBy : Option Thread := none
deriving DecidableEq, Repr

namespace SharedInstance

inductive Event
  /-- `getInstance` at the start of an API call. -/
  | getInstance (thread : Thread)
  /-- The end of an API call. -/
  | release (thread : Thread)
  /-- The critical section of `shutdown`, on a thread that is not the processing thread. -/
  | shutdown (id : ℕ)
  /-- The end of `shutdown`. -/
  | dropTmp
  | startCallback
  | endCallback
  | exitLoop
deriving DecidableEq, Repr

variable (s : SharedInstance)

def drop (thread : Thread) : SharedInstance :=
  if s.useCount = 1 then
    { s with useCount := 0, running := false, destroyedBy := some thread }
  else { s with useCount := s.useCount - 1 }

def step : Event → Option SharedInstance
  | .getInstance thread =>
    if s.published ∧ (thread = .processing → s.processingThread = .inCallback) then
      some { s with snapshots := thread :: s.snapshots, useCount := s.useCount + 1 }
    else none
  | .release thread =>
    if thread ∈ s.snapshots then
      some (drop { s with snapshots := s.snapshots.erase thread } thread)
    else none
  | .shutdown id =>
    -- `tmp` takes over the reference of `m_instance`
    if s.published then
      some { s with running := false, tmp := some (.other id), published := false }
    else none
  | .dropTmp =>
    match s.tmp with
    | some thread => some (drop { s with tmp := none } thread)
    | none => none
  | .startCallback =>
    if s.processingThread = .looping ∧ s.running then
      some { s with processingThread := .inCallback }
    else none
  | .endCallback =>
    if s.processingThread = .inCallback ∧ .processing ∉ s.snapshots then
      some { s with processingThread := .looping }
    else none
  | .exitLoop =>
    if s.processingThread = .looping ∧ s.running = false then
      some { s with processingThread := .exited }
    else none

def Initial : Prop := s = {}

/-- `m_instance` is reset and every reference left is in an API call on the processing thread. -/
def OnlyProcessing : Prop :=
  s.published = false ∧ s.tmp = none ∧ s.snapshots ≠ [] ∧
    ∀ thread ∈ s.snapshots, thread = .processing

/-- The event does not leave the processing thread alone with the manager. -/
def Keeps : Event → Prop
  | .release thread => thread ≠ .processing →
      ¬ (s.published = false ∧ s.tmp = none ∧ .processing ∈ s.snapshots ∧
        ∀ x ∈ s.snapshots.erase thread, x = .processing)
  | .dropTmp => ¬ (s.snapshots ≠ [] ∧ ∀ x ∈ s.snapshots, x = .processing)
  | _ => True

variable {s s' : SharedInstance} {e : Event}

inductive Fires (s : SharedInstance) : Event → SharedInstance → Prop
  | getInstance {thread : Thread} : s.published = true →
      (thread = .processing → s.processingThread = .inCallback) →
      Fires s (.getInstance thread)
        { s with snapshots := thread :: s.snapshots, useCount := s.useCount + 1 }
  | release {thread : Thread} : thread ∈ s.snapshots →
      Fires s (.release thread) (drop { s with snapshots := s.snapshots.erase thread } thread)
  | shutdown {id : ℕ} : s.published = true → Fires s (.shutdown id)
      { s with running := false, tmp := some (.other id), published := false }
  | dropTmp {thread : Thread} : s.tmp = some thread →
      Fires s .dropTmp (drop { s with tmp := none } thread)
  /-- The processing thread starts or ends a callback, or leaves its loop. -/
  | process {e : Event} (place : ProcessingThread) :
      e = .startCallback ∨ e = .endCallback ∨ e = .exitLoop →
      Fires s e { s with processingThread := place }

theorem step_fires (he : s.step e = some s') : Fires s e s' := by
  cases e with
  | dropTmp =>
    simp only [step] at he
    split at he
    · next ht =>
      cases he
      exact .dropTmp ht
    · cases he
  | getInstance thread =>
    simp only [step, Option.ite_none_right_eq_some, Option.some.injEq] at he
    obtain ⟨⟨hp, hc⟩, rfl⟩ := he
    exact .getInstance hp hc
  | release thread =>
    simp only [step, Option.ite_none_right_eq_some, Option.some.injEq] at he
    obtain ⟨hm, rfl⟩ := he
    exact .release hm
  | shutdown id =>
    simp only [step, Option.ite_none_right_eq_some, Option.some.injEq] at he
    obtain ⟨hp, rfl⟩ := he
    exact .shutdown hp
  | startCallback =>
    simp only [step, Option.ite_none_right_eq_some, Option.some.injEq] at he
    obtain ⟨-, rfl⟩ := he
    exact .process _ (.inl rfl)
  | endCallback =>
    simp only [step, Option.ite_none_right_eq_some, Option.some.injEq] at he
    obtain ⟨-, rfl⟩ := he
    exact .process _ (.inr (.inl rfl))
  | exitLoop =>
    simp only [step, Option.ite_none_right_eq_some, Option.some.injEq] at he
    obtain ⟨-, rfl⟩ := he
    exact .process _ (.inr (.inr rfl))

/-- The use count is the number of holders, the manager lives while it is positive, and `tmp` is
filled only once `m_instance` is empty and never by the processing thread. -/
structure Counted (s : SharedInstance) : Prop where
  count : s.useCount = (if s.published then 1 else 0) + (if s.tmp.isSome then 1 else 0) +
    s.snapshots.length
  tmp : s.tmp ≠ some .processing
  unpublished : s.tmp ≠ none → s.published = false
  alive : s.useCount ≠ 0 → s.destroyedBy = none

theorem counted_initial : Counted {} := ⟨rfl, by simp, by simp, fun _ => rfl⟩

theorem drop_published (thread : Thread) : (s.drop thread).published = s.published := by
  unfold drop
  split_ifs <;> rfl

theorem drop_tmp (thread : Thread) : (s.drop thread).tmp = s.tmp := by
  unfold drop
  split_ifs <;> rfl

theorem drop_snapshots (thread : Thread) : (s.drop thread).snapshots = s.snapshots := by
  unfold drop
  split_ifs <;> rfl

theorem drop_useCount (thread : Thread) : (s.drop thread).useCount = s.useCount - 1 := by
  unfold drop
  split_ifs with h
  · simp [h]
  · rfl

theorem drop_destroyedBy (thread : Thread) : (s.drop thread).destroyedBy =
    if s.useCount = 1 then some thread else s.destroyedBy := by
  unfold drop
  split_ifs <;> rfl

theorem drop_alive (h : s.useCount ≠ 0 → s.destroyedBy = none) (thread : Thread) :
    (s.drop thread).useCount ≠ 0 → (s.drop thread).destroyedBy = none := by
  intro hpos
  rw [drop_useCount] at hpos
  rw [drop_destroyedBy, if_neg (by omega)]
  exact h (by omega)

theorem Counted.step (h : s.Counted) (he : s.step e = some s') : s'.Counted := by
  have hc := h.count
  cases step_fires he with
  | getInstance hp _ =>
    rw [if_pos hp] at hc
    refine ⟨?_, h.tmp, h.unpublished, fun _ => h.alive (by omega)⟩
    simp only [List.length_cons, if_pos hp]
    omega
  | release hm =>
    have hl := List.length_erase_of_mem hm
    have hpos := List.length_pos_of_mem hm
    refine ⟨?_, ?_, ?_, ?_⟩
    · rw [drop_useCount, drop_published, drop_tmp, drop_snapshots]
      dsimp only
      omega
    · rw [drop_tmp]
      exact h.tmp
    · rw [drop_tmp, drop_published]
      exact h.unpublished
    · apply drop_alive
      exact h.alive
  | shutdown hp =>
    have ht : s.tmp = none := by
      by_contra ht
      exact Bool.false_ne_true ((h.unpublished ht).symm.trans hp)
    refine ⟨?_, by simp, fun _ => rfl, h.alive⟩
    simpa [hp, ht] using hc
  | dropTmp ht =>
    refine ⟨?_, by simp [drop_tmp], by simp [drop_tmp], ?_⟩
    · rw [drop_useCount, drop_published, drop_tmp, drop_snapshots]
      simp only [ht, Option.isSome_some, if_true] at hc
      simp only [Option.isSome_none, Bool.false_eq_true, if_false]
      omega
    · apply drop_alive
      exact h.alive
  | process => exact ⟨h.count, h.tmp, h.unpublished, h.alive⟩

theorem published_of_step (he : s.step e = some s') (hne : ∀ id, e ≠ .shutdown id) :
    s'.published = s.published := by
  cases step_fires he with
  | @shutdown id => exact absurd rfl (hne id)
  | release => rw [drop_published]
  | dropTmp => rw [drop_published]
  | getInstance => rfl
  | process => rfl

theorem published_of_shutdown {id : ℕ} (he : s.step (.shutdown id) = some s') :
    s.published = true ∧ s'.published = false := by
  cases step_fires he with
  | shutdown hp => exact ⟨hp, rfl⟩
  | process _ h => simp at h

theorem Counted.unpublished_of_destroyed (h : s.Counted) (hd : s.destroyedBy.isSome = true) :
    s.published = false := by
  have hc := h.count
  have hzero : s.useCount = 0 := by
    by_contra hne
    rw [h.alive hne] at hd
    cases hd
  by_contra hp
  rw [if_pos (by simpa using hp)] at hc
  omega

/-- A count of one with a snapshot in it leaves room for no other holder. -/
theorem Counted.snapshots_eq (h : s.Counted) {thread : Thread} (hm : thread ∈ s.snapshots)
    (h1 : s.useCount = 1) : s.published = false ∧ s.tmp = none ∧ s.snapshots = [thread] := by
  have hc := h.count
  have hpos := List.length_pos_of_mem hm
  have hp : s.published = false := by
    by_contra hp
    simp only [Bool.not_eq_false] at hp
    rw [if_pos hp] at hc
    omega
  have ht : s.tmp = none := by
    by_contra ht
    rw [if_pos (Option.isSome_iff_ne_none.mpr ht)] at hc
    omega
  have hlen : s.snapshots.length = 1 := by
    simp only [hp, ht, Bool.false_eq_true, if_false, Option.isSome_none] at hc
    omega
  obtain ⟨x, hx⟩ := List.length_eq_one_iff.mp hlen
  rw [hx, List.mem_singleton] at hm
  exact ⟨hp, ht, by rw [hx, hm]⟩

/-- The destructor runs on the processing thread only from a state in which that thread is the only
holder left. -/
theorem destroyedBy_processing (h : s.Counted) (hn : s.destroyedBy ≠ some .processing)
    (he : s.step e = some s') (hd : s'.destroyedBy = some .processing) : s.OnlyProcessing := by
  cases step_fires he with
  | release hm =>
    rw [drop_destroyedBy] at hd
    split_ifs at hd with h1
    · obtain ⟨hp, ht, hs⟩ := h.snapshots_eq hm h1
      refine ⟨hp, ht, List.ne_nil_of_mem hm, fun x hx => ?_⟩
      rw [hs, List.mem_singleton] at hx
      exact hx.trans (Option.some.inj hd)
    · exact absurd hd hn
  | dropTmp ht =>
    rw [drop_destroyedBy] at hd
    split_ifs at hd
    · exact absurd (ht.trans hd) h.tmp
    · exact absurd hd hn
  | getInstance => exact absurd hd hn
  | shutdown => exact absurd hd hn
  | process => exact absurd hd hn

theorem Keeps.not_onlyProcessing (hk : s.Keeps e) (h : ¬ s.OnlyProcessing)
    (he : s.step e = some s') : ¬ s'.OnlyProcessing := by
  intro ho
  cases step_fires he with
  | @release thread hm =>
    obtain ⟨hp, ht, hne, hall⟩ := ho
    rw [drop_published] at hp
    rw [drop_tmp] at ht
    rw [drop_snapshots] at hne hall
    by_cases hth : thread = .processing
    · -- one call fewer on the processing thread, which was alone before
      refine h ⟨hp, ht, List.ne_nil_of_mem hm, fun x hx => ?_⟩
      by_cases hx' : x = thread
      · exact hx'.trans hth
      · exact hall x ((List.mem_erase_of_ne hx').mpr hx)
    · obtain ⟨x, hx⟩ := List.exists_mem_of_ne_nil _ hne
      have hmem := List.mem_of_mem_erase hx
      rw [hall x hx] at hmem
      exact hk hth ⟨hp, ht, hmem, hall⟩
  | dropTmp =>
    obtain ⟨-, -, hne, hall⟩ := ho
    rw [drop_snapshots] at hne hall
    exact hk ⟨hne, hall⟩
  | getInstance hp => exact absurd (ho.1.symm.trans hp) Bool.false_ne_true
  | shutdown => exact absurd ho.2.1 (by simp)
  | process => exact h ho

/-- If no step leaves the processing thread alone with the manager, the destructor never runs on
that thread. -/
theorem never_destroyed_by_processing (h : Reachable Initial (guarded Keeps (ofFun step)) s) :
    s.destroyedBy ≠ some .processing := by
  have hinv : s.Counted ∧ ¬ s.OnlyProcessing ∧ s.destroyedBy ≠ some .processing := by
    refine h.invariant
      (P := fun s => s.Counted ∧ ¬ s.OnlyProcessing ∧ s.destroyedBy ≠ some .processing) ?_ ?_
    · rintro s₀ rfl
      exact ⟨counted_initial, fun ho => Bool.false_ne_true ho.1.symm, by simp⟩
    · rintro u e u' ⟨hc, hn, hd⟩ ⟨hk, hs⟩
      exact ⟨hc.step hs, hk.not_onlyProcessing hn hs,
        fun hx => hn (destroyedBy_processing hc hd hs hx)⟩
  exact hinv.2.2

theorem never_destroyed_by_processing_sendMessage :
    ∃ s : SharedInstance, s.destroyedBy = some (.other 0) ∧ s.destroyedBy ≠ some .processing := by
  let sending : SharedInstance :=
    { snapshots := [.processing], useCount := 2, processingThread := .inCallback }
  let stopping : SharedInstance := { sending with
    published := false, tmp := some (.other 0), running := false }
  let sent : SharedInstance := { stopping with snapshots := [], useCount := 1 }
  let destroyed : SharedInstance := { sent with
    tmp := none, useCount := 0, destroyedBy := some (.other 0) }
  have hG : ∀ e ∈ [Event.startCallback, .getInstance .processing, .shutdown 0],
      ∀ s : SharedInstance, s.Keeps e := by
    intro e he s
    simp only [List.mem_cons, List.not_mem_nil, or_false] at he
    rcases he with rfl | rfl | rfl <;> trivial
  have hs : exec step {} [.startCallback, .getInstance .processing, .shutdown 0] =
      some stopping := by
    decide
  have hr := exec_guarded (fun x hx => hG x.2 (List.of_mem_zip hx).2 x.1) hs
  have hsent : guarded Keeps (ofFun step) stopping (.release .processing) sent :=
    ⟨fun hne => absurd rfl hne, by unfold ofFun; decide⟩
  have hdone : guarded Keeps (ofFun step) sent .dropTmp destroyed :=
    ⟨fun hk => hk.1 rfl, by unfold ofFun; decide⟩
  exact ⟨destroyed, rfl, never_destroyed_by_processing ⟨{}, _, rfl, (hr.snoc hsent).snoc hdone⟩⟩

/-- Once the processing thread is the only holder, nobody can take a reference any more. -/
theorem OnlyProcessing.step (h : s.OnlyProcessing) (hc : s.Counted) (he : s.step e = some s') :
    s'.OnlyProcessing ∨ s'.destroyedBy = some .processing := by
  obtain ⟨hp, ht, hne, hall⟩ := h
  cases step_fires he with
  | @release thread hm =>
    by_cases h1 : s.useCount = 1
    · right
      rw [drop_destroyedBy, if_pos h1, hall thread hm]
    · left
      have hcount := hc.count
      simp only [hp, ht, Bool.false_eq_true, if_false, Option.isSome_none] at hcount
      have hl := List.length_erase_of_mem hm
      have hpos := List.length_pos_of_mem hm
      refine ⟨by rw [drop_published]; exact hp, by rw [drop_tmp]; exact ht, ?_, ?_⟩
      · rw [drop_snapshots]
        apply List.ne_nil_of_length_pos
        dsimp only
        omega
      · rw [drop_snapshots]
        exact fun x hx => hall x (List.mem_of_mem_erase hx)
  | dropTmp htmp => exact absurd (ht.symm.trans htmp) (by simp)
  | getInstance hpub => exact absurd (hp.symm.trans hpub) Bool.false_ne_true
  | shutdown hpub => exact absurd (hp.symm.trans hpub) Bool.false_ne_true
  | process => exact Or.inl ⟨hp, ht, hne, hall⟩

theorem Counted.destroyedBy_step (h : s.Counted) (hd : s.destroyedBy ≠ none)
    (he : s.step e = some s') : s'.destroyedBy = s.destroyedBy := by
  have h0 : s.useCount = 0 := by
    by_contra hpos
    exact hd (h.alive hpos)
  cases step_fires he with
  | release => rw [drop_destroyedBy, if_neg (by simp [h0])]
  | dropTmp => rw [drop_destroyedBy, if_neg (by simp [h0])]
  | getInstance => rfl
  | shutdown => rfl
  | process => rfl

/-- Left alone with the manager, the processing thread keeps it or destroys it, whatever the other
threads do. -/
theorem onlyProcessing_destroys (hr : Reachable Initial (ofFun step) s) (h : s.OnlyProcessing)
    {tr : List (Event × SharedInstance)} (hrun : Run (ofFun step) s tr s') :
    s'.OnlyProcessing ∨ s'.destroyedBy = some .processing := by
  have hc : s.Counted :=
    hr.invariant (fun _ h₀ => h₀ ▸ counted_initial) fun _ _ _ hu hs => hu.step hs
  have hinv : s'.Counted ∧ (s'.OnlyProcessing ∨ s'.destroyedBy = some .processing) := by
    refine hrun.invariant
      (P := fun s => s.Counted ∧ (s.OnlyProcessing ∨ s.destroyedBy = some .processing))
      ⟨hc, Or.inl h⟩ ?_
    rintro u e u' ⟨hu, ho | hd⟩ hs
    · exact ⟨hu.step hs, ho.step hu hs⟩
    · refine ⟨hu.step hs, Or.inr ?_⟩
      rw [hu.destroyedBy_step (by simp [hd]) hs, hd]
  exact hinv.2

/-- A callback is inside an API call while another thread runs `shutdown` to its end. -/
theorem destroyed_by_processing_reachable :
    ∃ s, Reachable Initial (ofFun step) s ∧ s.destroyedBy = some .processing := by
  have hs : exec step {} [.startCallback, .getInstance .processing, .shutdown 0, .dropTmp,
      .release .processing] = some
        { published := false, useCount := 0, running := false, processingThread := .inCallback,
          destroyedBy := some .processing } := by
    decide
  have hr := exec_run hs
  exact ⟨_, ⟨{}, _, rfl, hr⟩, rfl⟩

end SharedInstance

end ZmqPubSub
