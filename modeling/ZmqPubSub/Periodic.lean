import Mathlib.Algebra.Order.Ring.Int
import Mathlib.Data.List.Chain
import Mathlib.Tactic.Linarith

/-!
A loop that reads the clock once a pass and does some work when it is `late`: when enough time has
passed since the last time.
-/

namespace ZmqPubSub.Periodic

variable {τ : Type*} {late : τ → τ → Prop} {start last now : τ} {times : List τ}

/-- The work was done at `times`, the last time at `last`; before that, the loop counts from
`start`. -/
structure Done (late : τ → τ → Prop) (start : τ) (times : List τ) (last : τ) : Prop where
  chain : List.IsChain late (start :: times)
  last_eq : (start :: times).getLast? = some last

theorem Done.begin (late : τ → τ → Prop) (start : τ) : Done late start [] start :=
  ⟨.singleton start, rfl⟩

theorem Done.again (h : Done late start times last) (hl : late last now) :
    Done late start (times ++ [now]) now := by
  refine ⟨?_, by rw [← List.cons_append, List.getLast?_concat]⟩
  rw [← List.cons_append]
  refine h.chain.append (.singleton now) ?_
  intro x hx y hy
  obtain rfl := Option.some.inj (h.last_eq.symm.trans hx)
  obtain rfl := Option.some.inj hy
  exact hl

theorem Done.rest {t : τ} (h : Done late start (t :: times) last) :
    late start t ∧ Done late t times last := by
  obtain ⟨hfirst, hchain⟩ := List.isChain_cons_cons.mp h.chain
  exact ⟨hfirst, hchain, by rw [← h.last_eq, List.getLast?_cons_cons]⟩

theorem Done.replicate (h : Done late start times last) (hl : late last now) (hn : late now now)
    (n : ℕ) : Done late start (times ++ List.replicate (n + 1) now) now := by
  induction n with
  | zero => exact h.again hl
  | succ n ih =>
    rw [List.replicate_succ', ← List.append_assoc]
    exact ih.again hn

/-- The next time comes soon enough. -/
def Within (d t t' : ℤ) : Prop := t' ≤ t + d

theorem Done.length_mul_le {late : ℤ → ℤ → Prop} {start last : ℤ} {times : List ℤ}
    (h : Done late start times last) {interval : ℤ} (hi : ∀ t t', late t t' → interval ≤ t' - t) :
    times.length * interval ≤ last - start := by
  obtain ⟨hc, hl⟩ := h
  induction times generalizing start with
  | nil =>
    obtain rfl : start = last := by simpa using hl
    simp
  | cons t times ih =>
    rw [List.isChain_cons_cons] at hc
    have hfirst : interval ≤ t - start := hi start t hc.1
    have hrest : times.length * interval ≤ last - t := ih hc.2 (by simpa using hl)
    rw [List.length_cons, Nat.cast_succ, add_mul, one_mul]
    linarith

end ZmqPubSub.Periodic
