import Mathlib.Data.Finset.Basic
import Mathlib.Data.List.Basic

/-!
Duplicate suppression with bounded memory: a set answers membership, a queue remembers in which
order its elements were accepted, and the oldest one is forgotten when the queue outgrows its
capacity.
-/

namespace ZmqPubSub.HistoryWindow

structure Window (α : Type*) where
  seen : Finset α := ∅
  order : List α := []

variable {α : Type*} [DecidableEq α]

/-- Is `a` remembered? If not, remember it, at the cost of the oldest element when full. -/
def check (cap : ℕ) (w : Window α) (a : α) : Bool × Window α :=
  if a ∈ w.seen then (true, w)
  else
    match w.order ++ [a] with
    | [] => (false, w)
    | oldest :: order =>
      if cap < order.length + 1 then (false, ⟨(insert a w.seen).erase oldest, order⟩)
      else (false, ⟨insert a w.seen, oldest :: order⟩)

/-- The window holds the last `cap` elements of the list of all accepted ones. -/
structure Tracks (cap : ℕ) (w : Window α) (accepted : List α) : Prop where
  order_eq : w.order = accepted.drop (accepted.length - cap)
  seen_eq : w.seen = w.order.toFinset
  nodup : w.order.Nodup

inductive Answered (cap : ℕ) : List (α × Bool) → Window α → Prop
  | nil : Answered cap [] {}
  | snoc {calls : List (α × Bool)} {w : Window α} (a : α) :
      Answered cap calls w → Answered cap (calls ++ [(a, (check cap w a).1)]) (check cap w a).2

/-- The calls that were answered with "new", oldest first. -/
def accepted (calls : List (α × Bool)) : List α :=
  (calls.filter fun c => !c.2).map Prod.fst

variable {cap : ℕ} {w : Window α} {acc : List α} {calls : List (α × Bool)}

theorem check_fst (cap : ℕ) (w : Window α) (a : α) : (check cap w a).1 = decide (a ∈ w.seen) := by
  unfold check
  split_ifs with h
  · simp [h]
  · split
    · simp [h]
    · split_ifs <;> simp [h]

theorem check_snd_of_mem {a : α} (h : a ∈ w.seen) : (check cap w a).2 = w := by
  simp [check, h]

theorem tracks_empty (cap : ℕ) : Tracks cap ({} : Window α) [] := by
  constructor <;> simp

theorem Tracks.accept (h : Tracks cap w acc) {a : α} (ha : a ∉ w.seen) :
    Tracks cap (check cap w a).2 (acc ++ [a]) := by
  have hao : a ∉ w.order := by simpa [h.seen_eq] using ha
  have hn : (w.order ++ [a]).Nodup := by simpa using h.nodup.concat hao
  have hs : insert a w.seen = (w.order ++ [a]).toFinset := by
    ext x
    rw [Finset.mem_insert, h.seen_eq, List.mem_toFinset, List.mem_toFinset, List.mem_append,
      List.mem_singleton]
    exact or_comm
  have hl : w.order.length = min cap acc.length := by
    rw [h.order_eq, List.length_drop]
    omega
  cases ho : w.order ++ [a] with
  | nil => simp at ho
  | cons oldest order =>
    rw [ho] at hn hs
    have hlen : order.length = w.order.length := by
      simpa using (congrArg List.length ho).symm
    by_cases hc : cap < order.length + 1
    · have he : (check cap w a).2 = ⟨(insert a w.seen).erase oldest, order⟩ := by
        simp [check, ha, ho, hc]
      rw [he]
      refine ⟨?_, ?_, (List.nodup_cons.mp hn).2⟩
      · -- the queue was full, so the accepted list is one longer than what is dropped
        have hd : (acc ++ [a]).length - cap = (acc.length - cap) + 1 := by
          rw [List.length_append, List.length_singleton]
          omega
        have hp : acc.length - cap ≤ acc.length := Nat.sub_le _ _
        rw [hd, ← List.drop_drop, List.drop_append_of_le_length hp, ← h.order_eq, ho]
        rfl
      · rw [hs]
        ext x
        have := (List.nodup_cons.mp hn).1
        simp only [List.toFinset_cons, Finset.mem_erase, Finset.mem_insert, List.mem_toFinset]
        constructor
        · rintro ⟨hne, rfl | hx⟩
          · exact absurd rfl hne
          · exact hx
        · intro hx
          exact ⟨fun hxo => this (hxo ▸ hx), Or.inr hx⟩
    · have he : (check cap w a).2 = ⟨insert a w.seen, oldest :: order⟩ := by
        simp [check, ha, ho, hc]
      rw [he]
      refine ⟨?_, hs, hn⟩
      have hz : acc.length - cap = 0 := by omega
      have hz' : (acc ++ [a]).length - cap = 0 := by
        rw [List.length_append, List.length_singleton]
        omega
      have hw : w.order = acc := by rw [h.order_eq, hz, List.drop_zero]
      rw [hz', List.drop_zero, ← ho, hw]

theorem Tracks.mem_check (h : Tracks cap w acc) (hcap : 0 < cap) (a : α) :
    a ∈ (check cap w a).2.seen := by
  by_cases ha : a ∈ w.seen
  · rwa [check_snd_of_mem ha]
  · have ht := h.accept ha
    have hd : (acc ++ [a]).length - cap ≤ acc.length := by
      rw [List.length_append, List.length_singleton]
      omega
    rw [ht.seen_eq, ht.order_eq, List.mem_toFinset, List.drop_append_of_le_length hd]
    exact List.mem_append_right _ List.mem_cons_self

theorem mem_of_mem_check {a x : α} (h : x ∈ (check cap w a).2.seen) : x = a ∨ x ∈ w.seen := by
  unfold check at h
  split_ifs at h with ha
  · exact Or.inr h
  · split at h
    · exact Or.inr h
    · split_ifs at h
      · exact Finset.mem_insert.mp (Finset.mem_of_mem_erase h)
      · exact Finset.mem_insert.mp h

theorem accepted_append {α : Type*} (xs ys : List (α × Bool)) :
    accepted (xs ++ ys) = accepted xs ++ accepted ys := by
  simp [accepted]

theorem Answered.tracks (h : Answered cap calls w) : Tracks cap w (accepted calls) := by
  induction h with
  | nil => exact tracks_empty cap
  | @snoc calls w a _ ih =>
    rw [accepted_append, check_fst]
    by_cases ha : a ∈ w.seen
    · simpa [accepted, ha, check_snd_of_mem ha] using ih
    · simpa [accepted, ha] using ih.accept ha

/-- While fewer than `cap` other elements are accepted between any two calls for `u`, at most one
call for `u` is answered with "new". -/
theorem Answered.count_new_le_one (h : Answered cap calls w) (u : α)
    (hgap : ∀ p q r v v', calls = p ++ (u, v) :: (q ++ (u, v') :: r) →
      (q.filter fun c => !c.2 && c.1 != u).length < cap) :
    calls.count (u, false) ≤ 1 := by
  induction h with
  | nil => simp
  | @snoc calls w a h ih =>
    have ih := ih fun p q r v v' he => hgap p q (r ++ [(a, (check cap w a).1)]) v v'
      (by rw [he]; simp)
    by_cases hnew : (a, (check cap w a).1) = (u, false)
    swap
    · simpa [List.count_append, List.count_singleton, hnew] using ih
    obtain ⟨rfl, hv⟩ : a = u ∧ (check cap w a).1 = false := by simpa using hnew
    -- an earlier acceptance would still be in the window
    suffices hz : calls.count (a, false) = 0 by simp [List.count_append, hnew, hz]
    by_contra hc
    obtain ⟨p, q, rfl⟩ := List.append_of_mem (List.count_pos_iff.mp (Nat.pos_of_ne_zero hc))
    have hq : (a, false) ∉ q := by
      intro hq
      have h1 : 0 < q.count (a, false) := List.count_pos_iff.mpr hq
      simp only [List.count_append, List.count_cons_self] at ih
      omega
    have hlt := hgap p q [] false false (by simp [hnew])
    have hf : (q.filter fun c => !c.2 && c.1 != a) = q.filter fun c => !c.2 := by
      refine List.filter_congr ?_
      rintro ⟨b, v⟩ hb
      cases v with
      | true => rfl
      | false =>
        have hne : b ≠ a := fun he => hq (he ▸ hb)
        simp [hne]
    rw [hf] at hlt
    have hmem : a ∈ w.seen := by
      rw [h.tracks.seen_eq, h.tracks.order_eq, List.mem_toFinset]
      have hsplit : accepted (p ++ (a, false) :: q) = accepted p ++ a :: accepted q := by
        simp [accepted]
      have hlen : (accepted q).length < cap := by simpa [accepted] using hlt
      rw [hsplit]
      have hd : (accepted p ++ a :: accepted q).length - cap ≤ (accepted p).length := by
        simp only [List.length_append, List.length_cons]
        omega
      rw [List.drop_append_of_le_length hd]
      simp
    rw [check_fst] at hv
    simp [hmem] at hv

end ZmqPubSub.HistoryWindow
