import Mathlib.Data.List.Nodup
import Mathlib.Logic.Relation
import ZmqPubSub.Containers

/-!
Nodes accept each message once and forward it over their edges, which are FIFO queues. A node need
not forward to a node that has accepted the message already. Messages that are not `live` may get
lost; the others reach every node, and no path overtakes another.
-/

namespace ZmqPubSub.Flooding

structure Graph (α ε : Type*) where
  src : ε → α
  dst : ε → α

structure State (α ε μ : Type*) where
  /-- The messages that a node has accepted, oldest first. -/
  accepted : α → List μ
  /-- The messages on an edge, oldest first. -/
  pending : ε → List μ

variable {α ε μ : Type*}

def Graph.Adj (G : Graph α ε) (a b : α) : Prop := ∃ e, G.src e = a ∧ G.dst e = b

structure Accepts (G : Graph α ε) (n : α) (m : μ) (s s' : State α ε μ) : Prop where
  new : m ∉ s.accepted n
  self : s'.accepted n = s.accepted n ++ [m]
  others : ∀ n', n' ≠ n → s'.accepted n' = s.accepted n'
  forwards : ∀ e, G.src e = n →
    s'.pending e = s.pending e ++ [m] ∨ (s'.pending e = s.pending e ∧ m ∈ s.accepted (G.dst e))
  idle : ∀ e, G.src e ≠ n → s'.pending e = s.pending e

/-- A message leaves the edge `e`, from any place in its queue. -/
structure Removes (e : ε) (m : μ) (s s' : State α ε μ) : Prop where
  split : ∃ p q, s.pending e = p ++ m :: q ∧ s'.pending e = p ++ q
  others : ∀ e', e' ≠ e → s'.pending e' = s.pending e'
  accepted : s'.accepted = s.accepted

inductive Step (G : Graph α ε) (live : μ → Prop) (s : State α ε μ) : State α ε μ → Prop
  | idle : Step G live s s
  /-- A message enters at `n`. -/
  | inject {s'} (n : α) (m : μ) : (∀ n', m ∉ s.accepted n') → Accepts G n m s s' → Step G live s s'
  /-- The oldest message of an edge arrives and is new. It leaves once it has been forwarded. -/
  | deliver {s'} (s₁ : State α ε μ) (e : ε) (m : μ) (rest : List μ) : s.pending e = m :: rest →
      Accepts G (G.dst e) m s s₁ → Removes e m s₁ s' → Step G live s s'
  /-- A message leaves that is a duplicate or need not be kept. -/
  | consume {s'} (e : ε) (m : μ) : Removes e m s s' → (live m → m ∈ s.accepted (G.dst e)) →
      Step G live s s'

variable {G : Graph α ε} {live : μ → Prop} {s s' : State α ε μ} {n : α} {e : ε} {m m₁ m₂ : μ}

theorem Accepts.mem_iff (h : Accepts G n m s s') (n' : α) (x : μ) :
    x ∈ s'.accepted n' ↔ x ∈ s.accepted n' ∨ (n' = n ∧ x = m) := by
  by_cases hn : n' = n
  · rw [hn, h.self, List.mem_append, List.mem_singleton]
    simp
  · rw [h.others n' hn]
    simp [hn]

theorem Accepts.pending_cases (h : Accepts G n m s s') (e : ε) :
    (G.src e = n ∧ s'.pending e = s.pending e ++ [m]) ∨ s'.pending e = s.pending e := by
  by_cases hn : G.src e = n
  · exact (h.forwards e hn).imp (fun hp => ⟨hn, hp⟩) And.left
  · exact Or.inr (h.idle e hn)

theorem Removes.mem_pending (h : Removes e m s s') {e' : ε} {x : μ} (hx : x ∈ s'.pending e') :
    x ∈ s.pending e' := by
  by_cases he : e' = e
  · subst he
    obtain ⟨p, q, hs, hs'⟩ := h.split
    rw [hs', List.mem_append] at hx
    rw [hs, List.mem_append]
    exact hx.imp_right (List.mem_cons_of_mem m)
  · rwa [← h.others e' he]

/-- What is on an edge has been accepted at its start; what is live and has been accepted there has
been accepted at its end or is on the edge; and no node accepts twice. -/
structure Sound (G : Graph α ε) (live : μ → Prop) (s : State α ε μ) : Prop where
  sent : ∀ e m, m ∈ s.pending e → m ∈ s.accepted (G.src e)
  covered : ∀ e m, live m → m ∈ s.accepted (G.src e) → m ∈ s.accepted (G.dst e) ∨ m ∈ s.pending e
  nodup : ∀ n, (s.accepted n).Nodup

theorem Sound.accepts (h : Sound G live s) (ha : Accepts G n m s s') : Sound G live s' := by
  refine ⟨?_, ?_, ?_⟩
  · intro e x hx
    rw [ha.mem_iff]
    rcases ha.pending_cases e with ⟨hn, hp⟩ | hp
    · rw [hp, List.mem_append, List.mem_singleton] at hx
      exact hx.imp (h.sent e x) fun hxm => ⟨hn, hxm⟩
    · rw [hp] at hx
      exact Or.inl (h.sent e x hx)
  · intro e x hl hx
    rw [ha.mem_iff] at hx ⊢
    have hmono : x ∈ s.pending e → x ∈ s'.pending e := by
      intro hp
      rcases ha.pending_cases e with ⟨-, he⟩ | he
      · rw [he]
        exact List.mem_append_left _ hp
      · rwa [he]
    rcases hx with hx | ⟨hn, rfl⟩
    · rcases h.covered e x hl hx with hd | hp
      · exact Or.inl (Or.inl hd)
      · exact Or.inr (hmono hp)
    · rcases ha.forwards e hn with hp | ⟨-, hd⟩
      · right
        rw [hp]
        exact List.mem_append_right _ List.mem_cons_self
      · exact Or.inl (Or.inl hd)
  · intro n'
    by_cases hn : n' = n
    · subst hn
      rw [ha.self, ← List.concat_eq_append]
      exact (h.nodup n').concat ha.new
    · rw [ha.others n' hn]
      exact h.nodup n'

theorem Sound.removes (h : Sound G live s) (hp : Removes e m s s')
    (hm : live m → m ∈ s.accepted (G.dst e)) : Sound G live s' := by
  refine ⟨?_, ?_, ?_⟩
  · intro e' x hx
    rw [hp.accepted]
    exact h.sent e' x (hp.mem_pending hx)
  · intro e' x hl hx
    rw [hp.accepted] at hx ⊢
    rcases h.covered e' x hl hx with hd | hx'
    · exact Or.inl hd
    · by_cases he : e' = e
      · subst he
        obtain ⟨p, q, hs, hs'⟩ := hp.split
        rw [hs, List.mem_append, List.mem_cons] at hx'
        rw [hs', List.mem_append]
        rcases hx' with hx' | rfl | hx'
        · exact Or.inr (Or.inl hx')
        · exact Or.inl (hm hl)
        · exact Or.inr (Or.inr hx')
      · right
        rwa [hp.others e' he]
  · intro n'
    rw [hp.accepted]
    exact h.nodup n'

theorem Sound.step (h : Sound G live s) (hs : Step G live s s') : Sound G live s' := by
  cases hs with
  | idle => exact h
  | inject n m _ ha => exact h.accepts ha
  | deliver s₁ e m rest _ ha hp =>
    refine (h.accepts ha).removes hp fun _ => ?_
    rw [ha.mem_iff]
    exact Or.inr ⟨rfl, rfl⟩
  | consume e m hp hm => exact h.removes hp hm

/-- With nothing on any edge, a live message accepted anywhere has been accepted once by every node
that can be reached from there. -/
theorem Sound.accepted_once [DecidableEq μ] (h : Sound G live s) (hq : ∀ e, s.pending e = [])
    {n' : α} (hc : Relation.ReflTransGen G.Adj n n') (hl : live m) (hm : m ∈ s.accepted n) :
    (s.accepted n').count m = 1 := by
  have hmem : m ∈ s.accepted n' := by
    induction hc with
    | refl => exact hm
    | tail _ hadj ih =>
      obtain ⟨e, rfl, rfl⟩ := hadj
      rcases h.covered e m hl ih with hd | hp
      · exact hd
      · rw [hq e] at hp
        cases hp
  exact List.count_eq_one_of_mem (h.nodup n') hmem

/-- Wherever `m₂` has come, `m₁` has come before it. -/
structure Before (G : Graph α ε) (m₁ m₂ : μ) (s : State α ε μ) : Prop where
  nodes : ∀ n p q, s.accepted n = p ++ m₂ :: q → m₁ ∈ p
  edges : ∀ e p q, s.pending e = p ++ m₂ :: q → m₁ ∈ p ∨ m₁ ∈ s.accepted (G.dst e)

theorem split_of_removed {l r p q : List μ} (h : l ++ r = p ++ m₂ :: q) :
    ∃ p' q', l ++ m :: r = p' ++ m₂ :: q' ∧ ∀ x ∈ p', x = m ∨ x ∈ p := by
  rcases List.append_eq_append_iff.mp h with ⟨a, rfl, rfl⟩ | ⟨c, rfl, hc⟩
  · refine ⟨l ++ m :: a, q, by simp, fun x hx => ?_⟩
    rw [List.mem_append, List.mem_cons] at hx
    rw [List.mem_append]
    exact or_left_comm.mp hx
  · cases c with
    | nil =>
      obtain rfl : m₂ :: q = r := by simpa using hc
      refine ⟨p ++ [m], q, by simp, fun x hx => ?_⟩
      rw [List.mem_append, List.mem_singleton] at hx
      exact hx.symm
    | cons y c =>
      obtain ⟨rfl, rfl⟩ : m₂ = y ∧ q = c ++ r := by simpa using hc
      exact ⟨p, c ++ m :: r, by simp, fun x hx => Or.inr hx⟩

theorem Before.of_absent (hn : ∀ n, m₂ ∉ s.accepted n) (he : ∀ e, m₂ ∉ s.pending e) :
    Before G m₁ m₂ s := by
  constructor
  · intro n p q hx
    exact absurd (hx ▸ List.mem_append_right p List.mem_cons_self) (hn n)
  · intro e p q hx
    exact absurd (hx ▸ List.mem_append_right p List.mem_cons_self) (he e)

theorem Before.accepts (h : Before G m₁ m₂ s) (hs : Sound G live s) (hl : live m₁)
    (ha : Accepts G n m s s') (hm : m = m₂ → m₁ ∈ s.accepted n) : Before G m₁ m₂ s' := by
  constructor
  · intro n' p q hx
    by_cases hn : n' = n
    · subst hn
      rw [ha.self] at hx
      rcases Containers.append_singleton_eq hx with ⟨rfl, hm₂⟩ | ⟨q', hx'⟩
      · exact hm hm₂.symm
      · exact h.nodes n' p q' hx'
    · rw [ha.others n' hn] at hx
      exact h.nodes n' p q hx
  · intro e p q hx
    rw [ha.mem_iff]
    rcases ha.pending_cases e with ⟨hn, hp⟩ | hp
    · rw [hp] at hx
      rcases Containers.append_singleton_eq hx with ⟨rfl, hm₂⟩ | ⟨q', hx'⟩
      · -- `m₂` follows `m₁` out of `n`
        have h₁ := hs.covered e m₁ hl (hn ▸ hm hm₂.symm)
        exact h₁.symm.imp_right Or.inl
      · exact (h.edges e p q' hx').imp_right Or.inl
    · rw [hp] at hx
      exact (h.edges e p q hx).imp_right Or.inl

theorem Before.removes (h : Before G m₁ m₂ s) (hp : Removes e m s s')
    (hm : m = m₁ → m₁ ∈ s.accepted (G.dst e)) : Before G m₁ m₂ s' := by
  constructor
  · intro n p q hx
    rw [hp.accepted] at hx
    exact h.nodes n p q hx
  · intro e' p q hx
    rw [hp.accepted]
    by_cases he : e' = e
    · subst he
      obtain ⟨l, r, hs, hs'⟩ := hp.split
      obtain ⟨p', q', hx', hsub⟩ := split_of_removed (hs' ▸ hx)
      rcases h.edges e' p' q' (hs.trans hx') with hmem | hd
      · exact (hsub m₁ hmem).symm.imp_right fun hmm => hm hmm.symm
      · exact Or.inr hd
    · rw [hp.others e' he] at hx
      exact h.edges e' p q hx

/-- The order survives every step, if `m₂` only enters where `m₁` has been accepted. -/
theorem Before.step (h : Before G m₁ m₂ s) (hs : Sound G live s) (hl : live m₁)
    (hstep : Step G live s s')
    (henter : (∀ n, m₂ ∉ s.accepted n) → ∀ n, m₂ ∈ s'.accepted n → m₁ ∈ s.accepted n) :
    Before G m₁ m₂ s' := by
  cases hstep with
  | idle => exact h
  | inject n m hnew ha =>
    refine h.accepts hs hl ha ?_
    rintro rfl
    exact henter hnew n ((ha.mem_iff n m).mpr (Or.inr ⟨rfl, rfl⟩))
  | deliver s₁ e m rest he ha hp =>
    have hb : Before G m₁ m₂ s₁ := by
      refine h.accepts hs hl ha ?_
      rintro rfl
      -- at the head of the edge, `m₂` has nothing before it
      exact (h.edges e [] rest he).resolve_left List.not_mem_nil
    refine hb.removes hp ?_
    rintro rfl
    exact (ha.mem_iff _ m).mpr (Or.inr ⟨rfl, rfl⟩)
  | consume e m hp hm =>
    refine h.removes hp ?_
    rintro rfl
    exact hm hl

end ZmqPubSub.Flooding
