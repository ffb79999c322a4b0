import Mathlib.Data.List.Basic
import Mathlib.Data.List.Induction

/-!
Fields that are split at a separator, blocks of equal length, and numbers as `std::to_string` and
`std::hex` print them.
-/

namespace ZmqPubSub.Text

section

variable {α : Type*} [BEq α] [LawfulBEq α] {a : α} {l f : List α}

theorem notMem_of_mem_splitOn (h : f ∈ l.splitOn a) : a ∉ f := by
  induction l generalizing f with
  | nil =>
    rw [List.splitOn_nil, List.mem_singleton] at h
    rw [h]
    exact List.not_mem_nil
  | cons x l ih =>
    rw [List.splitOn_cons_eq_if_modifyHead] at h
    split_ifs at h with hx
    · rcases List.mem_cons.mp h with rfl | h
      · exact List.not_mem_nil
      · exact ih h
    · obtain ⟨g, gs, hg⟩ := List.exists_cons_of_ne_nil (List.splitOn_ne_nil a l)
      rw [hg, List.modifyHead_cons, List.mem_cons] at h
      rcases h with rfl | h
      · have hne : a ≠ x := fun he => hx (by simp [he])
        rw [List.mem_cons, not_or]
        exact ⟨hne, ih (hg ▸ List.mem_cons_self)⟩
      · exact ih (hg ▸ List.mem_cons_of_mem g h)

theorem length_splitOn {α : Type*} [BEq α] (a : α) (l : List α) :
    (l.splitOn a).length = l.count a + 1 := by
  induction l with
  | nil => simp
  | cons x l ih =>
    rw [List.splitOn_cons_eq_if_modifyHead, List.count_cons]
    split_ifs
    · simp [ih]
    · simp [ih]

/-- What stands before the first separator, and what comes after it. -/
theorem eq_append_cons_of_idxOf? {i : ℕ} (h : l.idxOf? a = some i) :
    ∃ before after, l = before ++ a :: after ∧ before.length = i ∧ a ∉ before := by
  obtain ⟨hlt, hget, hbefore⟩ := List.idxOf?_eq_some_iff.mp h
  refine ⟨l.take i, l.drop (i + 1), ?_, List.length_take_of_le (Nat.le_of_lt hlt), ?_⟩
  · rw [← hget, ← List.drop_eq_getElem_cons hlt, List.take_append_drop]
  · intro hm
    obtain ⟨j, hj, he⟩ := List.mem_iff_getElem.mp hm
    rw [List.length_take, Nat.lt_min] at hj
    rw [List.getElem_take] at he
    exact hbefore j hj.1 he

/-- Lines that each end in the separator. -/
theorem splitOn_flatMap_append {ι : Type*} {f : ι → List α} (h : ∀ i, a ∉ f i) (is : List ι) :
    (is.flatMap fun i => f i ++ [a]).splitOn a = is.map f ++ [[]] := by
  induction is with
  | nil => simp
  | cons i is ih =>
    rw [List.flatMap_cons, List.append_assoc, List.singleton_append,
      List.splitOn_append_cons_self_of_not_mem (h i), ih, List.map_cons, List.cons_append]

/-- `std::string::rfind` of a character. -/
def rfind (a : α) (l : List α) : Option ℕ := (l.reverse.idxOf? a).map fun i => l.length - 1 - i

theorem rfind_append (before : List α) {after : List α} (h : a ∉ after) :
    rfind a (before ++ a :: after) = some before.length := by
  have hi : (before ++ a :: after).reverse.idxOf? a = some after.length := by
    rw [List.reverse_append, List.reverse_cons, List.append_assoc, List.idxOf?_eq_some_iff]
    refine ⟨by simp, by simp, ?_⟩
    intro j hj ha
    rw [List.getElem_append_left (by simpa using hj)] at ha
    exact h (List.mem_reverse.mp (ha ▸ List.getElem_mem _))
  rw [rfind, hi, Option.map_some, List.length_append, List.length_cons]
  congr 1
  omega

theorem exists_last {α : Type*} {a : α} {l : List α} (h : a ∈ l) :
    ∃ before after, l = before ++ a :: after ∧ a ∉ after := by
  obtain ⟨after, before, hl, ha⟩ := List.eq_append_cons_of_mem (List.mem_reverse.mpr h)
  refine ⟨before.reverse, after.reverse, ?_, by simpa using ha⟩
  rw [← List.reverse_reverse l, hl]
  simp

/-- What follows the last separator is the only text without a separator that follows one. -/
theorem cons_isSuffix_iff {name before after : List α} (hn : a ∉ name) (ha : a ∉ after) :
    a :: name <:+ before ++ a :: after ↔ name = after := by
  constructor
  · rintro ⟨pre, he⟩
    have hlen : pre.length = before.length := by
      have := congrArg (rfind a) he
      rwa [rfind_append pre hn, rfind_append before ha, Option.some.injEq] at this
    exact (List.cons.inj (List.append_inj he hlen).2).2
  · rintro rfl
    exact List.suffix_append before (a :: name)

end

section

variable {α : Type*} (l : List α)

/-- A block, element by element. -/
theorem flatMap_getElem? (i n : ℕ) :
    (List.range n).flatMap (fun j => l[i + j]?.toList) = (l.drop i).take n := by
  induction n with
  | zero => rfl
  | succ n ih =>
    rw [List.range_succ, List.flatMap_append, ih, List.take_add_one, List.getElem?_drop]
    simp

/-- The blocks one after the other. -/
theorem flatMap_take_drop (width n : ℕ) :
    (List.range n).flatMap (fun k => (l.drop (width * k)).take width) = l.take (width * n) := by
  induction n with
  | zero => rfl
  | succ n ih =>
    rw [List.range_succ, List.flatMap_append, ih, List.flatMap_singleton, Nat.mul_succ,
      List.take_add]

end

/-- Digits only, and no zero in front. -/
def PlainDecimal (t : List Char) : Prop :=
  t ≠ [] ∧ (∀ c ∈ t, c.isDigit = true) ∧ t.head? ≠ some '0'

instance (t : List Char) : Decidable (PlainDecimal t) := inferInstanceAs (Decidable (_ ∧ _))

variable {t : List Char} {n : ℕ}

theorem isDigit_toDigits {c : Char} (hc : c ∈ Nat.toDigits 10 n) : c.isDigit = true :=
  Nat.isDigit_of_mem_toDigits (by decide) (by decide) hc

theorem head?_toDigits_ne (hn : 0 < n) : (Nat.toDigits 10 n).head? ≠ some '0' := by
  induction n using Nat.strongRecOn with
  | ind n ih =>
    by_cases hlt : n < 10
    · rw [Nat.toDigits_of_lt_base hlt, List.head?_singleton, Ne, Option.some.injEq,
        Nat.digitChar_eq_zero]
      omega
    · rw [Nat.toDigits_of_base_le (by decide) (by omega),
        List.head?_append_of_ne_nil _ Nat.toDigits_ne_nil]
      exact ih (n / 10) (by omega) (by omega)

theorem plainDecimal_toDigits (hn : 0 < n) : PlainDecimal (Nat.toDigits 10 n) :=
  ⟨Nat.toDigits_ne_nil, fun _ hc => isDigit_toDigits hc, head?_toDigits_ne hn⟩

theorem digitChar_of_isDigit {c : Char} (hc : c.isDigit = true) :
    c.toNat - '0'.toNat < 10 ∧ (c.toNat - '0'.toNat).digitChar = c := by
  simp only [Char.isDigit, ge_iff_le, Bool.and_eq_true, decide_eq_true_eq] at hc
  have hlow : 48 ≤ c.toNat := UInt32.le_iff_toNat_le.mp hc.1
  have hhigh : c.toNat ≤ 57 := UInt32.le_iff_toNat_le.mp hc.2
  have hzero : '0'.toNat = 48 := rfl
  have hd : c.toNat - '0'.toNat < 10 := by omega
  refine ⟨hd, Char.toNat_inj.mp ?_⟩
  rw [Nat.toNat_digitChar_of_lt_ten hd]
  omega

/-- A number without leading zeros is printed as it was read. -/
theorem toDigits_ofDigitChars (h : PlainDecimal t) :
    Nat.toDigits 10 (Nat.ofDigitChars 10 t 0) = t := by
  obtain ⟨hne, hdigit, hhead⟩ := h
  induction t using List.reverseRecOn with
  | nil => exact absurd rfl hne
  | append_singleton s c ih =>
    obtain ⟨hlt, hc⟩ := digitChar_of_isDigit (hdigit c (by simp))
    rw [Nat.ofDigitChars_append, Nat.ofDigitChars_cons, Nat.ofDigitChars_nil]
    by_cases hs : s = []
    · subst hs
      rw [Nat.ofDigitChars_nil, Nat.mul_zero, Nat.zero_add, Nat.toDigits_of_lt_base hlt, hc,
        List.nil_append]
    · rw [List.head?_append_of_ne_nil _ hs] at hhead
      have hs' := ih hs (fun x hx => hdigit x (List.mem_append_left _ hx)) hhead
      have hpos : 0 < Nat.ofDigitChars 10 s 0 := by
        -- zero would be printed with a zero in front
        rw [Nat.pos_iff_ne_zero]
        intro hz
        rw [hz, Nat.toDigits_zero] at hs'
        exact hhead (hs' ▸ rfl)
      rw [← Nat.toDigits_append_toDigits (by decide) hpos hlt, hs',
        Nat.toDigits_of_lt_base hlt, hc]

theorem PlainDecimal.pos (h : PlainDecimal t) : 0 < Nat.ofDigitChars 10 t 0 := by
  rw [Nat.pos_iff_ne_zero]
  intro hz
  have ht := toDigits_ofDigitChars h
  rw [hz, Nat.toDigits_zero] at ht
  exact h.2.2 (ht ▸ rfl)

theorem PlainDecimal.take (h : PlainDecimal t) {k : ℕ} (hk : 0 < k) : PlainDecimal (t.take k) := by
  obtain ⟨hne, hdigit, hhead⟩ := h
  obtain ⟨c, s, rfl⟩ := List.exists_cons_of_ne_nil hne
  obtain ⟨k, rfl⟩ := Nat.exists_eq_succ_of_ne_zero (Nat.pos_iff_ne_zero.mp hk)
  exact ⟨List.cons_ne_nil _ _, fun x hx => hdigit x (List.mem_of_mem_take hx), hhead⟩

def isHexDigit (c : Char) : Bool := c.isDigit || ('a' ≤ c && c ≤ 'f')

def hexValue (c : Char) : ℕ := if c.isDigit then c.toNat - '0'.toNat else c.toNat - 'a'.toNat + 10

def readHex (t : List Char) : ℕ := t.foldl (fun n c => 16 * n + hexValue c) 0

theorem hexValue_digitChar : ∀ d < 16, hexValue d.digitChar = d := by decide

theorem isHexDigit_digitChar : ∀ d < 16, isHexDigit d.digitChar = true := by decide

theorem readHex_append_singleton (t : List Char) (c : Char) :
    readHex (t ++ [c]) = 16 * readHex t + hexValue c := by
  rw [readHex, readHex, List.foldl_append, List.foldl_cons, List.foldl_nil]

theorem readHex_zeros_append (k : ℕ) (t : List Char) :
    readHex (List.replicate k '0' ++ t) = readHex t := by
  have hzeros : readHex (List.replicate k '0') = 0 := by
    induction k with
    | zero => rfl
    | succ k ih =>
      rw [List.replicate_succ', readHex_append_singleton, ih]
      decide
  rw [readHex, List.foldl_append, ← readHex, hzeros, readHex]

theorem readHex_toDigits (n : ℕ) : readHex (Nat.toDigits 16 n) = n := by
  induction n using Nat.strongRecOn with
  | ind n ih =>
    by_cases hlt : n < 16
    · rw [Nat.toDigits_of_lt_base hlt, ← List.nil_append [n.digitChar], readHex_append_singleton,
        hexValue_digitChar n hlt]
      exact Nat.zero_add n
    · rw [Nat.toDigits_of_base_le (by decide) (by omega), readHex_append_singleton,
        ih (n / 16) (by omega), hexValue_digitChar (n % 16) (by omega)]
      omega

theorem isHexDigit_of_mem_toDigits {c : Char} (hc : c ∈ Nat.toDigits 16 n) :
    isHexDigit c = true := by
  induction n using Nat.strongRecOn with
  | ind n ih =>
    by_cases hlt : n < 16
    · rw [Nat.toDigits_of_lt_base hlt, List.mem_singleton] at hc
      rw [hc]
      exact isHexDigit_digitChar n hlt
    · rw [Nat.toDigits_of_base_le (by decide) (by omega), List.mem_append,
        List.mem_singleton] at hc
      rcases hc with hc | rfl
      · exact ih (n / 16) (by omega) hc
      · exact isHexDigit_digitChar (n % 16) (by omega)

end ZmqPubSub.Text
