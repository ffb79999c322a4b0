import Mathlib.Data.List.Basic

/-!
The threads that wait on one condition variable. A thread that was notified, or that woke by itself
because of a spurious wakeup or a timeout, comes back to check its predicate under the lock.
-/

namespace ZmqPubSub

structure CondVar (τ : Type*) where
  waiting : List τ := []
  /-- Notified and not yet back. -/
  notified : List τ := []
  /-- Woken without a notification and not yet back. -/
  woken : List τ := []
deriving DecidableEq

namespace CondVar

variable {τ : Type*} (c : CondVar τ)

def wait (t : τ) : CondVar τ := { c with waiting := c.waiting ++ [t] }

def notifyAll : CondVar τ := { c with waiting := [], notified := c.notified ++ c.waiting }

/-- The threads that are inside the wait. -/
def members : List τ := c.waiting ++ c.notified ++ c.woken

/-- As long as somebody waits, at least `n` notified threads are on their way back. -/
def Covers (n : ℕ) : Prop := c.waiting ≠ [] → n ≤ c.notified.length

section

variable {c} {t u : τ} {m n : ℕ}

theorem Covers.mono (h : c.Covers n) (hm : m ≤ n) : c.Covers m := fun hw => Nat.le_trans hm (h hw)

theorem covers_of_waiting_eq_nil (h : c.waiting = []) : c.Covers n := fun hw => absurd h hw

theorem covers_zero : c.Covers 0 := fun _ => Nat.zero_le _

theorem mem_members : t ∈ c.members ↔ t ∈ c.waiting ∨ t ∈ c.notified ∨ t ∈ c.woken := by
  simp [members]

/-- If anything is covered, a wait that has members has one that comes back. -/
theorem Covers.exists_back (hc : c.Covers n) (hn : 0 < n) (ht : t ∈ c.members) :
    ∃ u, u ∈ c.notified ∨ u ∈ c.woken := by
  obtain hw | hb := mem_members.mp ht
  · have hpos : 0 < c.notified.length := Nat.lt_of_lt_of_le hn (hc (List.ne_nil_of_mem hw))
    obtain ⟨u, hu⟩ := List.exists_mem_of_length_pos hpos
    exact ⟨u, .inl hu⟩
  · exact ⟨t, hb⟩

theorem mem_members_wait : t ∈ (c.wait u).members ↔ t ∈ c.members ∨ t = u := by
  simp only [mem_members, wait, List.mem_append, List.mem_singleton]
  tauto

theorem mem_members_notifyAll : t ∈ c.notifyAll.members ↔ t ∈ c.members := by
  simp only [mem_members, notifyAll, List.mem_append, List.not_mem_nil, false_or]
  tauto

end

variable [DecidableEq τ]

/-- The notification reaches the waiter `t`, or nobody if nobody waits. -/
def notifyOne : Option τ → Option (CondVar τ)
  | none => if c.waiting = [] then some c else none
  | some t =>
    if t ∈ c.waiting then
      some { c with waiting := c.waiting.erase t, notified := c.notified ++ [t] }
    else none

/-- A spurious wakeup or a timeout. -/
def wake (t : τ) : Option (CondVar τ) :=
  if t ∈ c.waiting then some { c with waiting := c.waiting.erase t, woken := c.woken ++ [t] }
  else none

/-- The thread has the lock again. -/
def resume (t : τ) : Option (CondVar τ) :=
  if t ∈ c.notified then some { c with notified := c.notified.erase t }
  else if t ∈ c.woken then some { c with woken := c.woken.erase t }
  else none

variable {c} {c' : CondVar τ} {t u : τ} {w : Option τ} {n : ℕ}

theorem notifyOne_none : c.notifyOne none = some c' ↔ c.waiting = [] ∧ c = c' := by
  simp [notifyOne]

theorem notifyOne_some : c.notifyOne (some t) = some c' ↔ t ∈ c.waiting ∧
    { c with waiting := c.waiting.erase t, notified := c.notified ++ [t] } = c' := by
  simp [notifyOne]

theorem wake_eq_some : c.wake t = some c' ↔ t ∈ c.waiting ∧
    { c with waiting := c.waiting.erase t, woken := c.woken ++ [t] } = c' := by
  simp [wake]

theorem notifyOne_waiting_eq_nil (h : c.notifyOne w = some c') (hw : c.waiting = []) :
    c' = c := by
  cases w with
  | none => exact (notifyOne_none.mp h).2.symm
  | some t => exact absurd (notifyOne_some.mp h).1 (by simp [hw])

/-- A notification pays for one more. -/
theorem Covers.notifyOne (hc : c.Covers n) (h : c.notifyOne w = some c') : c'.Covers (n + 1) := by
  cases w with
  | none =>
    obtain ⟨hw, rfl⟩ := notifyOne_none.mp h
    exact covers_of_waiting_eq_nil hw
  | some t =>
    obtain ⟨ht, rfl⟩ := notifyOne_some.mp h
    intro _
    have hn : n ≤ c.notified.length := hc (List.ne_nil_of_mem ht)
    simpa using hn

theorem Covers.wake (hc : c.Covers n) (h : c.wake t = some c') : c'.Covers n := by
  obtain ⟨ht, rfl⟩ := wake_eq_some.mp h
  exact fun _ => hc (List.ne_nil_of_mem ht)

theorem resume_waiting (h : c.resume t = some c') : c'.waiting = c.waiting := by
  unfold resume at h
  split_ifs at h <;> cases h <;> rfl

/-- A thread that comes back was paid for at most once. -/
theorem Covers.resume (hc : c.Covers n) (h : c.resume t = some c') : c'.Covers (n - 1) := by
  intro hw
  rw [resume_waiting h] at hw
  have hn : n ≤ c.notified.length := hc hw
  unfold CondVar.resume at h
  split_ifs at h with ht hk
  · cases h
    simp only [List.length_erase_of_mem ht]
    omega
  · cases h
    exact Nat.le_trans (Nat.sub_le n 1) hn

theorem exists_resume_of_wake (h : c.wake t = some c') : ∃ c'', c'.resume t = some c'' := by
  obtain ⟨-, rfl⟩ := wake_eq_some.mp h
  unfold resume
  split_ifs with hn hw
  · exact ⟨_, rfl⟩
  · exact ⟨_, rfl⟩
  · exact absurd (List.mem_append_right _ List.mem_cons_self) hw

theorem wake_waiting_eq_nil (h : c.wake t = some c') (hw : c.waiting = []) : False :=
  absurd (wake_eq_some.mp h).1 (by simp [hw])

theorem mem_members_erase (hw : c'.waiting = c.waiting.erase u)
    (hu : u ∈ c'.notified ∨ u ∈ c'.woken) (hn : c.notified ⊆ c'.notified)
    (hk : c.woken ⊆ c'.woken) (ht : t ∈ c.members) : t ∈ c'.members := by
  rw [mem_members] at ht ⊢
  by_cases htu : t = u
  · subst htu
    exact .inr hu
  · rw [hw, List.mem_erase_of_ne htu]
    exact ht.imp_right (Or.imp (fun h => hn h) (fun h => hk h))

theorem mem_members_notifyOne (h : c.notifyOne w = some c') (ht : t ∈ c.members) :
    t ∈ c'.members := by
  cases w with
  | none =>
    obtain ⟨-, rfl⟩ := notifyOne_none.mp h
    exact ht
  | some u =>
    obtain ⟨-, rfl⟩ := notifyOne_some.mp h
    exact mem_members_erase rfl (.inl (List.mem_append_right _ List.mem_cons_self))
      (List.subset_append_left _ _) (List.Subset.refl _) ht

theorem mem_members_wake (h : c.wake u = some c') (ht : t ∈ c.members) : t ∈ c'.members := by
  obtain ⟨-, rfl⟩ := wake_eq_some.mp h
  exact mem_members_erase rfl (.inr (List.mem_append_right _ List.mem_cons_self))
    (List.Subset.refl _) (List.subset_append_left _ _) ht

theorem mem_members_resume (h : c.resume u = some c') (hne : t ≠ u) (ht : t ∈ c.members) :
    t ∈ c'.members := by
  unfold resume at h
  rw [mem_members] at ht ⊢
  split_ifs at h <;> cases h <;> simpa [List.mem_erase_of_ne hne] using ht

end CondVar

end ZmqPubSub
