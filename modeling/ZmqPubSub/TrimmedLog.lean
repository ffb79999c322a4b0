import Mathlib.Data.List.Basic

/-!
Entries are added at the end. When there are more than `max` of them, the oldest `chunk` go.
-/

namespace ZmqPubSub.TrimmedLog

variable {α : Type*} (max chunk : ℕ)

def record (log : List α) (x : α) : List α :=
  if (log ++ [x]).length > max then (log ++ [x]).drop chunk else log ++ [x]

/-- How many entries there are after `n` have been added. -/
def kept (n : ℕ) : ℕ := if n ≤ max then n else max + 1 - chunk + (n - (max + 1)) % chunk

variable {max chunk}

theorem kept_of_le {n : ℕ} (h : n ≤ max) : kept max chunk n = n := if_pos h

theorem kept_succ (h₀ : 0 < chunk) (h : chunk ≤ max) (n : ℕ) :
    kept max chunk (n + 1) =
      if kept max chunk n + 1 > max then kept max chunk n + 1 - chunk
      else kept max chunk n + 1 := by
  rcases Nat.lt_trichotomy n max with hn | rfl | hn
  · rw [kept_of_le (Nat.le_of_lt hn), if_neg (by omega)]
    exact kept_of_le hn
  · rw [kept_of_le (Nat.le_refl n), if_pos (by omega), kept, if_neg (by omega), Nat.sub_self,
      Nat.zero_mod]
    rfl
  · obtain ⟨m, rfl⟩ : ∃ m, n = max + 1 + m := ⟨n - (max + 1), by omega⟩
    have hk : kept max chunk (max + 1 + m) = max + 1 - chunk + m % chunk := by
      rw [kept, if_neg (by omega), Nat.add_sub_cancel_left]
    have hk' : kept max chunk (max + 1 + m + 1) = max + 1 - chunk + (m + 1) % chunk := by
      rw [kept, if_neg (by omega), Nat.add_assoc (max + 1), Nat.add_sub_cancel_left]
    have hlt := Nat.mod_lt m h₀
    rw [hk, hk', ← Nat.mod_add_mod]
    by_cases hfull : m % chunk + 1 = chunk
    · rw [if_pos (by omega), hfull, Nat.mod_self]
      omega
    · rw [if_neg (by omega), Nat.mod_eq_of_lt (by omega)]
      rfl

theorem kept_le (h₀ : 0 < chunk) (h : chunk ≤ max) (n : ℕ) :
    kept max chunk n ≤ n ∧ kept max chunk n ≤ max := by
  induction n with
  | zero => simp [kept]
  | succ n ih =>
    rw [kept_succ h₀ h]
    split_ifs <;> omega

theorem le_kept {n : ℕ} (h : max < n) : max + 1 - chunk ≤ kept max chunk n := by
  rw [kept, if_neg (Nat.not_le.mpr h)]
  exact Nat.le_add_right _ _

/-- The log holds the last of the entries that were added. -/
theorem record_drop (h₀ : 0 < chunk) (h : chunk ≤ max) (all : List α) (x : α) :
    record max chunk (all.drop (all.length - kept max chunk all.length)) x =
      (all ++ [x]).drop ((all ++ [x]).length - kept max chunk (all ++ [x]).length) := by
  obtain ⟨hle, hmax⟩ := kept_le h₀ h all.length
  have happend : all.drop (all.length - kept max chunk all.length) ++ [x] =
      (all ++ [x]).drop (all.length - kept max chunk all.length) := by
    rw [List.drop_append_of_le_length (by omega)]
  have hlength : (all.drop (all.length - kept max chunk all.length) ++ [x]).length =
      kept max chunk all.length + 1 := by
    rw [List.length_append, List.length_drop, List.length_singleton]
    omega
  unfold record
  rw [hlength, happend, List.length_append, List.length_singleton, kept_succ h₀ h]
  split_ifs with hfull
  · rw [List.drop_drop]
    congr 1
    omega
  · congr 1
    omega

end ZmqPubSub.TrimmedLog
