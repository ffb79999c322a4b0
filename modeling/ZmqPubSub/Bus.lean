import Mathlib.Data.List.Nodup
import Mathlib.Data.List.Perm.Subperm
import ZmqPubSub.Containers

/-!
One medium for all clients: each of them hears what the others publish and it wants, in the order in
which it was published. Nobody hears itself. A client may lag behind, but it misses nothing.
-/

namespace ZmqPubSub.Bus

open Containers

structure State (κ μ : Type*) where
  published : κ → List μ
  /-- What a client, the second one, got from another. -/
  got : κ → κ → List μ

variable {κ μ : Type*}

/-- What `k` is to get from `j`. -/
def heard [DecidableEq κ] (wants : κ → μ → Bool) (published : κ → List μ) (j k : κ) : List μ :=
  if j = k then [] else (published j).filter (wants k)

inductive Step [DecidableEq κ] (wants : κ → μ → Bool) (t : State κ μ) : State κ μ → Prop
  | publish (j : κ) (m : μ) : (∀ i, m ∉ t.published i) →
      Step wants t ⟨push t.published j m, t.got⟩
  /-- Any number of clients hear more. -/
  | hear (got : κ → κ → List μ) : (∀ j k, t.got j k <+: got j k) →
      (∀ j k, got j k <+: heard wants t.published j k) → Step wants t ⟨t.published, got⟩

theorem heard_isPrefix [DecidableEq κ] {wants : κ → μ → Bool} {published published' : κ → List μ}
    {j : κ} (h : published j <+: published' j) (k : κ) :
    heard wants published j k <+: heard wants published' j k := by
  unfold heard
  split_ifs
  · exact List.prefix_refl _
  · exact h.filter (wants k)

/-- A part of `m` that has, before each of its elements, all that stand before it in `m`. -/
theorem isPrefix_of_noGaps {l m : List μ} (hl : l.Nodup) (hm : m.Nodup) (hsub : l ⊆ m)
    (hgap : m.Pairwise fun x y => ∀ p q, l = p ++ y :: q → x ∈ p) : l <+: m := by
  induction m generalizing l with
  | nil => exact List.eq_nil_of_subset_nil hsub ▸ List.nil_prefix
  | cons x m ih =>
    cases l with
    | nil => exact List.nil_prefix
    | cons a l =>
      rw [List.pairwise_cons] at hgap
      rw [List.nodup_cons] at hl hm
      -- the first element cannot stand further back, since `x` would be missing before it
      have ha : a = x := by
        by_contra hne
        have ha : a ∈ m := List.mem_of_ne_of_mem hne (hsub List.mem_cons_self)
        cases hgap.1 a ha [] l rfl
      subst ha
      rw [List.cons_prefix_cons]
      refine ⟨rfl, ih hl.2 hm.2 (fun y hy => ?_) ?_⟩
      · have hya : y ≠ a := fun he => hl.1 (he ▸ hy)
        exact List.mem_of_ne_of_mem hya (hsub (List.mem_cons_of_mem a hy))
      · refine hgap.2.imp_of_mem fun {x y} hx _ hxy p q he => ?_
        have hxa : x ≠ a := fun he => hm.1 (he ▸ hx)
        exact List.mem_of_ne_of_mem hxa (hxy (a :: p) q (by rw [he, List.cons_append]))

theorem filter_isPrefix_of_noGaps [DecidableEq μ] {l m : List μ} (hl : l.Nodup) (hm : m.Nodup)
    (hgap : m.Pairwise fun x y => ∀ p q, l = p ++ y :: q → x ∈ p) : l.filter (· ∈ m) <+: m := by
  refine isPrefix_of_noGaps (hl.filter _) hm (fun x hx => ?_) ?_
  · simpa using List.of_mem_filter hx
  · refine hgap.imp_of_mem fun {x y} hx _ hxy p q he => ?_
    obtain ⟨l₁, l₂, rfl, rfl, h₂⟩ := List.filter_eq_append_iff.mp he
    obtain ⟨l₃, l₄, rfl, h₃, -, -⟩ := List.filter_eq_cons_iff.mp h₂
    have hmem := hxy (l₁ ++ l₃) l₄ (List.append_assoc _ _ _).symm
    rcases List.mem_append.mp hmem with hx₁ | hx₃
    · exact List.mem_filter.mpr ⟨hx₁, by simpa using hx⟩
    · exact absurd (by simpa using hx) (h₃ x hx₃)

theorem eq_of_isPrefix {l m : List μ} (h : l <+: m) (hm : m.Nodup) (hsub : m ⊆ l) : l = m :=
  h.eq_of_length_le (List.subperm_of_subset hm hsub).length_le

end ZmqPubSub.Bus
