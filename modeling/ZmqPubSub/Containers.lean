import Mathlib.Logic.Function.Basic
import Mathlib.Data.List.AList
import Mathlib.Data.List.Perm.Basic

/-!
Hash tables as association lists, removal from a vector by moving its last element into the gap,
lists that alternate, and families of queues.
-/

namespace ZmqPubSub.Containers

section Table

variable {κ : Type*} {ν : Type*}

/-- A hash table, with an arbitrary but fixed order of iteration. -/
abbrev Table (κ ν : Type*) := AList fun _ : κ => ν

theorem mem_table_iff [DecidableEq κ] {t : Table κ ν} {k : κ} :
    k ∈ t ↔ ∃ v, t.lookup k = some v := by
  rw [← AList.lookup_isSome, Option.isSome_iff_exists]

end Table

section Vector

variable {α : Type*} [DecidableEq α]

/-- Remove the first `a`: overwrite it with the last element and shorten the vector by one. -/
def swapRemove (l : List α) (a : α) : List α :=
  match l.idxOf? a, l.getLast? with
  | some i, some last => (l.set i last).dropLast
  | _, _ => l

theorem swapRemove_of_notMem {l : List α} {a : α} (h : a ∉ l) : swapRemove l a = l := by
  have hi : l.idxOf? a = none := List.idxOf?_eq_none_iff.mpr h
  simp [swapRemove, hi]

/-- Up to the order of the survivors, `swapRemove` is `erase`. -/
theorem swapRemove_perm (l : List α) (a : α) : (swapRemove l a).Perm (l.erase a) := by
  by_cases h : a ∈ l
  · obtain ⟨l₁, l₂, hn, rfl, he⟩ := List.exists_erase_eq h
    rw [he]
    have hi : (l₁ ++ a :: l₂).idxOf? a = some l₁.length := by
      rw [List.idxOf?_eq_some_iff]
      refine ⟨by simp, by simp, ?_⟩
      intro j hj
      rw [List.getElem_append_left (by simpa using hj)]
      exact fun heq => hn (heq ▸ List.getElem_mem _)
    -- the gap is filled from the back unless it is itself the last slot
    rcases List.eq_nil_or_concat l₂ with rfl | ⟨l₃, b, rfl⟩
    · have hl : swapRemove (l₁ ++ [a]) a = l₁ := by simp [swapRemove, hi]
      simp [hl]
    · have hl : swapRemove (l₁ ++ a :: (l₃ ++ [b])) a = l₁ ++ b :: l₃ := by
        have hg : (l₁ ++ a :: (l₃ ++ [b])).getLast? = some b := by
          rw [← List.cons_append, ← List.append_assoc, List.getLast?_concat]
        have hd : (l₁ ++ b :: (l₃ ++ [b])).dropLast = l₁ ++ b :: l₃ := by
          rw [← List.cons_append, ← List.append_assoc, List.dropLast_concat]
        simp only [List.concat_eq_append] at hi
        simp [swapRemove, hi, hg, hd]
      simp only [List.concat_eq_append] at hl ⊢
      rw [hl]
      exact (List.perm_append_singleton b l₃).symm.append_left l₁
  · rw [swapRemove_of_notMem h, List.erase_of_not_mem h]

theorem mem_swapRemove {l : List α} (hl : l.Nodup) {a b : α} :
    b ∈ swapRemove l a ↔ b ≠ a ∧ b ∈ l := by
  rw [(swapRemove_perm l a).mem_iff, hl.mem_erase_iff]

theorem nodup_swapRemove {l : List α} (hl : l.Nodup) (a : α) : (swapRemove l a).Nodup :=
  (swapRemove_perm l a).nodup_iff.mpr (hl.erase a)

end Vector

/-- A loop that contributes one element for some of the entries it visits. -/
theorem flatMap_eq_filter_map {α β : Type*} {l : List α} {g : α → List β} (p : α → Bool)
    (f : α → β) (h : ∀ a, g a = if p a then [f a] else []) : l.flatMap g = (l.filter p).map f := by
  induction l with
  | nil => rfl
  | cons a l ih => cases hp : p a <;> simp [h, hp, ih]

theorem length_flatMap_le_count {α β γ : Type*} [BEq γ] {l : List α} {f : α → List β}
    {g : α → List γ} {x : γ} (h : ∀ a ∈ l, (f a).length ≤ (g a).count x) :
    (l.flatMap f).length ≤ (l.flatMap g).count x := by
  induction l with
  | nil => simp
  | cons a l ih =>
    simp only [List.flatMap_cons, List.length_append, List.count_append]
    exact Nat.add_le_add (h a List.mem_cons_self) (ih fun a' h' => h a' (List.mem_cons_of_mem a h'))

theorem length_filter_le_count {α γ : Type*} [BEq γ] {l : List α} {p : α → Bool}
    {g : α → List γ} {x : γ} (h : ∀ a ∈ l, p a = true → 0 < (g a).count x) :
    (l.filter p).length ≤ (l.flatMap g).count x := by
  induction l with
  | nil => simp
  | cons a l ih =>
    have ih := ih fun a' h' => h a' (List.mem_cons_of_mem a h')
    have ha := h a List.mem_cons_self
    rw [List.flatMap_cons, List.count_append, List.filter_cons]
    split_ifs with hp
    · have := ha hp
      rw [List.length_cons]
      omega
    · omega

theorem filterMap_concat_none {α β : Type*} {f : α → Option β} {a : α} (h : f a = none)
    (l : List α) : (l ++ [a]).filterMap f = l.filterMap f := by
  rw [List.filterMap_append, List.filterMap_cons_none h, List.filterMap_nil, List.append_nil]

/-- Where an element stands in a list that has just grown at its end. -/
theorem append_singleton_eq {β : Type*} {l before after : List β} {x y : β}
    (h : l ++ [x] = before ++ y :: after) :
    (before = l ∧ y = x) ∨ ∃ after', l = before ++ y :: after' := by
  obtain rfl | ⟨after', z, rfl⟩ := List.eq_nil_or_concat after
  · obtain ⟨hl, hx⟩ := List.append_inj_left' h rfl, List.append_inj_right' h rfl
    exact .inl ⟨hl.symm, (List.singleton_inj.mp hx).symm⟩
  · right
    rw [List.concat_eq_append, ← List.cons_append, ← List.append_assoc] at h
    exact ⟨after', List.append_inj_left' h rfl⟩

section Alternates

variable {α : Type*} {p : α → Bool} {l : List α}

/-- The list begins with an element of `p`, and then every other element is one. -/
def Alternates (p : α → Bool) (l : List α) : Prop :=
  ∀ i a, l[i]? = some a → (p a = true ↔ i % 2 = 0)

theorem alternates_nil : Alternates p [] := by
  intro i a h
  simp at h

theorem Alternates.snoc (h : Alternates p l) {a : α} (ha : p a = true ↔ l.length % 2 = 0) :
    Alternates p (l ++ [a]) := by
  intro i b hb
  obtain hi | hi := Nat.lt_or_ge i l.length
  · rw [List.getElem?_append_left hi] at hb
    exact h i b hb
  · rw [List.getElem?_append_right hi, List.getElem?_singleton] at hb
    split_ifs at hb with hz
    obtain rfl := Option.some.inj hb
    have hil : i = l.length := by omega
    rw [hil]
    exact ha

/-- A list of on and off events that leaves the switch on or off, as `on` says. -/
structure Toggles (p : α → Bool) (l : List α) (on : Prop) : Prop where
  alternates : Alternates p l
  on_iff : on ↔ l.length % 2 = 1

theorem toggles_nil : Toggles p [] False :=
  ⟨alternates_nil, iff_of_false id (by simp)⟩

theorem Toggles.congr {on on' : Prop} (h : Toggles p l on) (he : on' ↔ on) : Toggles p l on' :=
  ⟨h.alternates, he.trans h.on_iff⟩

theorem Toggles.turnOn {on on' : Prop} (h : Toggles p l on) {a : α} (ha : p a = true)
    (hoff : ¬ on) (hon : on') : Toggles p (l ++ [a]) on' := by
  have hlen : ¬ l.length % 2 = 1 := mt h.on_iff.mpr hoff
  refine ⟨h.alternates.snoc (iff_of_true ha (by omega)), iff_of_true hon ?_⟩
  rw [List.length_append, List.length_singleton]
  omega

theorem Toggles.turnOff {on on' : Prop} (h : Toggles p l on) {a : α} (ha : ¬ p a = true)
    (hon : on) (hoff : ¬ on') : Toggles p (l ++ [a]) on' := by
  have hlen : l.length % 2 = 1 := h.on_iff.mp hon
  refine ⟨h.alternates.snoc (iff_of_false ha (by omega)), iff_of_false hoff ?_⟩
  rw [List.length_append, List.length_singleton]
  omega

theorem Toggles.getLast?_iff {on : Prop} (h : Toggles p l on) :
    on ↔ ∃ a, l.getLast? = some a ∧ p a = true := by
  rw [h.on_iff]
  obtain rfl | ⟨l, a, rfl⟩ := List.eq_nil_or_concat l
  · simp
  · have ha : p a = true ↔ l.length % 2 = 0 := h.alternates l.length a (by simp)
    have hlen : (l.concat a).length = l.length + 1 := by simp
    have hlast : (∃ b, (l.concat a).getLast? = some b ∧ p b = true) ↔ p a = true := by simp
    rw [hlast, ha, hlen]
    omega

end Alternates

section Queues

variable {α β : Type*} [DecidableEq α] {f : α → List β} {a a' : α} {x y : β}

/-- One queue of a family grows at its end. -/
def push (f : α → List β) (a : α) (x : β) : α → List β := Function.update f a (f a ++ [x])

theorem push_apply (f : α → List β) (a : α) (x : β) (a' : α) :
    push f a x a' = if a' = a then f a' ++ [x] else f a' := by
  rw [push, Function.update_apply]
  split_ifs with h
  · rw [h]
  · rfl

theorem mem_push : y ∈ push f a x a' ↔ y ∈ f a' ∨ (a' = a ∧ y = x) := by
  rw [push_apply]
  split_ifs with h <;> simp [h]

theorem subset_push (f : α → List β) (a a' : α) (x : β) : f a' ⊆ push f a x a' :=
  fun _ hy => mem_push.mpr (.inl hy)

theorem mem_of_mem_pop {rest : List β} (h : f a = x :: rest)
    (hy : y ∈ Function.update f a rest a') : y ∈ f a' := by
  rw [Function.update_apply] at hy
  split_ifs at hy with ha
  · rw [ha, h]
    exact List.mem_cons_of_mem x hy
  · exact hy

theorem mem_pop_of_ne {rest : List β} (h : f a = x :: rest) (hy : y ∈ f a')
    (hne : a' = a → y ≠ x) : y ∈ Function.update f a rest a' := by
  rw [Function.update_apply]
  split_ifs with ha
  · rw [ha, h] at hy
    exact (List.mem_cons.mp hy).resolve_left (hne ha)
  · exact hy

theorem mem_of_mem_lose {i : ℕ} (hx : x ∈ Function.update f a ((f a).eraseIdx i) a') :
    x ∈ f a' := by
  rw [Function.update_apply] at hx
  split_ifs at hx with ha
  · exact ha ▸ List.mem_of_mem_eraseIdx hx
  · exact hx

end Queues

end ZmqPubSub.Containers
