import Mathlib.Data.List.Basic
import Mathlib.Logic.Relation

/-!
A system is a labelled step relation. A run keeps the events in the order in which they happen,
each with the state it leads to, so that a statement can speak of the last state, of every state
on the way, or of the steps taken.
-/

namespace ZmqPubSub.TransitionSystem

variable {σ ι : Type*}

/-- A finite run, grown at its end. -/
inductive Run (step : σ → ι → σ → Prop) : σ → List (ι × σ) → σ → Prop
  | nil (s : σ) : Run step s [] s
  | snoc {s t u : σ} {tr : List (ι × σ)} {e : ι} :
      Run step s tr t → step t e u → Run step s (tr ++ [(e, u)]) u

def visited (s : σ) (tr : List (ι × σ)) : List σ := s :: tr.map Prod.snd

/-- The steps of `step` whose event meets `G` in the state before it. -/
def guarded (G : σ → ι → Prop) (step : σ → ι → σ → Prop) (s : σ) (e : ι) (t : σ) : Prop :=
  G s e ∧ step s e t

def Reachable (init : σ → Prop) (step : σ → ι → σ → Prop) (s : σ) : Prop :=
  ∃ s₀ tr, init s₀ ∧ Run step s₀ tr s

/-- The relation of a step function with disabled events. -/
def ofFun (f : σ → ι → Option σ) (s : σ) (e : ι) (t : σ) : Prop := f s e = some t

def exec (f : σ → ι → Option σ) (s : σ) (es : List ι) : Option σ := es.foldlM f s

def trace (f : σ → ι → Option σ) (s : σ) : List ι → List (ι × σ)
  | [] => []
  | e :: es =>
    match f s e with
    | none => []
    | some t => (e, t) :: trace f t es

variable {step : σ → ι → σ → Prop} {s t u : σ} {tr : List (ι × σ)} {e : ι}

/-- The invariant rule. -/
theorem Run.invariant {P : σ → Prop} (hr : Run step s tr t) (h₀ : P s)
    (hs : ∀ t e u, P t → step t e u → P u) : P t := by
  induction hr with
  | nil => exact h₀
  | snoc _ h ih => exact hs _ _ _ ih h

theorem Run.traceInvariant {P : List (ι × σ) → σ → Prop} (hr : Run step s tr t) (h₀ : P [] s)
    (hs : ∀ tr t e u, Run step s tr t → P tr t → step t e u → P (tr ++ [(e, u)]) u) : P tr t := by
  induction hr with
  | nil => exact h₀
  | snoc hr h ih => exact hs _ _ _ _ hr ih h

theorem Run.mono {step' : σ → ι → σ → Prop} (hr : Run step s tr t)
    (h : ∀ s e t, step s e t → step' s e t) : Run step' s tr t := by
  induction hr with
  | nil => exact .nil _
  | snoc _ hs ih => exact .snoc ih (h _ _ _ hs)

theorem Run.unguarded {G : σ → ι → Prop} (hr : Run (guarded G step) s tr t) : Run step s tr t :=
  hr.mono fun _ _ _ h => h.2

theorem Reachable.invariant {init : σ → Prop} {P : σ → Prop} (hr : Reachable init step s)
    (h₀ : ∀ s, init s → P s) (hs : ∀ t e u, P t → step t e u → P u) : P s := by
  obtain ⟨s₀, tr, hi, hr⟩ := hr
  exact hr.invariant (h₀ s₀ hi) hs

theorem Reachable.tail {init : σ → Prop} (hr : Reachable init step s) (h : step s e t) :
    Reachable init step t := by
  obtain ⟨s₀, tr, hi, hr⟩ := hr
  exact ⟨s₀, _, hi, hr.snoc h⟩

theorem Run.append {tr' : List (ι × σ)} (hr : Run step s tr t) (hr' : Run step t tr' u) :
    Run step s (tr ++ tr') u := by
  induction hr' with
  | nil => simpa using hr
  | snoc _ h ih =>
    rw [← List.append_assoc]
    exact ih.snoc h

theorem visited_snoc (s : σ) (tr : List (ι × σ)) (e : ι) (u : σ) :
    visited s (tr ++ [(e, u)]) = visited s tr ++ [u] := by
  simp [visited]

theorem Run.last_mem_visited (hr : Run step s tr t) : t ∈ visited s tr := by
  cases hr with
  | nil => simp [visited]
  | snoc => simp [visited]

/-- Executing events that meet `G` in the states in which they happen is a run of guarded steps. -/
theorem exec_guarded {f : σ → ι → Option σ} {G : σ → ι → Prop} {es : List ι}
    (hG : ∀ x ∈ (visited s (trace f s es)).zip es, G x.1 x.2) (h : exec f s es = some t) :
    Run (guarded G (ofFun f)) s (trace f s es) t := by
  induction es generalizing s with
  | nil =>
    obtain rfl : s = t := by simpa [exec] using h
    exact .nil s
  | cons e es ih =>
    obtain ⟨v, hv, hes⟩ : ∃ v, f s e = some v ∧ exec f v es = some t := by
      simpa [exec, Option.bind_eq_some_iff] using h
    have htr : trace f s (e :: es) = (e, v) :: trace f v es := by simp [trace, hv]
    have hvis : visited s ((e, v) :: trace f v es) = s :: visited v (trace f v es) := rfl
    rw [htr, hvis, List.zip_cons_cons] at hG
    have h₁ : Run (guarded G (ofFun f)) s [(e, v)] v :=
      (Run.nil s).snoc ⟨hG _ List.mem_cons_self, hv⟩
    rw [htr]
    exact h₁.append (ih (fun x hx => hG x (List.mem_cons_of_mem _ hx)) hes)

theorem exec_run {f : σ → ι → Option σ} {es : List ι} (h : exec f s es = some t) :
    Run (ofFun f) s (trace f s es) t :=
  (exec_guarded (G := fun _ _ => True) (fun _ _ => trivial) h).unguarded

theorem Reachable.exec {init : σ → Prop} {f : σ → ι → Option σ} {es : List ι}
    (hr : Reachable init (ofFun f) s) (h : exec f s es = some t) : Reachable init (ofFun f) t := by
  obtain ⟨s₀, tr, hi, hr⟩ := hr
  exact ⟨s₀, _, hi, hr.append (exec_run h)⟩

end ZmqPubSub.TransitionSystem
