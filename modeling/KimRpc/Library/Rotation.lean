import Mathlib.Algebra.Order.Floor.Div
import Mathlib.Data.Int.CardIntervalMod
import Mathlib.Data.List.Perm.Basic

/-! The indices that a cursor draws from a list in turn, and how often it draws each. -/

namespace KimRpc.Library.Rotation

variable {n c m i : ℕ}

/-- The indices of m draws from a list of length n, the cursor starting at c. -/
def turns (n c m : ℕ) : List ℕ := (List.range m).map (fun k => (c + k) % n)

lemma turns_succ : turns n c (m + 1) = turns n c m ++ [(c + m) % n] := by
  simp [turns, List.range_succ]

lemma length_turns : (turns n c m).length = m := by simp [turns]

lemma turns_window {w : ℕ} (h : i + w ≤ m) : ((turns n c m).drop i).take w = turns n (c + i) w := by
  apply List.ext_getElem
  · rw [List.length_take, List.length_drop, length_turns, length_turns]
    omega
  · intro k _ _
    simp [turns, Nat.add_assoc]

lemma mem_turns_lt (hn : 0 < n) (h : i ∈ turns n c m) : i < n := by
  obtain ⟨k, -, rfl⟩ := List.mem_map.mp h
  exact Nat.mod_lt _ hn

lemma count_turns_eq : (turns n c m).count i = m.count (fun k => (c + k) % n = i) := by
  induction m with
  | zero => rfl
  | succ m ih =>
    rw [turns_succ, List.count_append, ih, Nat.count_succ, List.count_singleton]
    by_cases h : (c + m) % n = i
    · simp [h]
    · simp [h]

lemma turn_iff (hi : i < n) (k : ℕ) : (c + k) % n = i ↔ k ≡ i + (n - 1) * c [MOD n] := by
  have hround : c + (i + (n - 1) * c) = i + n * c := by
    obtain ⟨n, rfl⟩ := Nat.exists_eq_add_of_lt (Nat.zero_lt_of_lt hi)
    simp only [Nat.zero_add, Nat.add_sub_cancel]
    ring
  have hclass : (c + k) % n = i ↔ c + k ≡ c + (i + (n - 1) * c) [MOD n] := by
    rw [hround, Nat.ModEq, Nat.add_mul_mod_self_left, Nat.mod_eq_of_lt hi]
  rw [hclass]
  constructor
  · exact Nat.ModEq.add_left_cancel' c
  · exact Nat.ModEq.add_left c

lemma count_turns (hi : i < n) : (turns n c m).count i = m / n ∨
    (turns n c m).count i = m ⌈/⌉ n := by
  have hn := Nat.zero_lt_of_lt hi
  have hcount : (turns n c m).count i = m / n + if (i + (n - 1) * c) % n < m % n then 1 else 0 := by
    rw [count_turns_eq, ← Nat.count_modEq_card m hn]
    simp only [turn_iff hi]
  rw [hcount]
  by_cases h : (i + (n - 1) * c) % n < m % n
  · right
    have hceil : m ⌈/⌉ n = (n - 1 + m % n) / n + m / n := by
      rw [Nat.ceilDiv_eq_add_pred_div, ← Nat.add_mul_div_left _ _ hn]
      congr 1
      have hdiv := Nat.div_add_mod m n
      omega
    have hmod := Nat.mod_lt m hn
    have hone : (n - 1 + m % n) / n = 1 := (Nat.div_eq_iff hn).mpr ⟨by omega, by omega⟩
    rw [if_pos h, hceil, hone, Nat.add_comm]
  · left
    rw [if_neg h, Nat.add_zero]

lemma turns_perm : (turns n c n).Perm (List.range n) := by
  rcases Nat.eq_zero_or_pos n with rfl | hn
  · rfl
  apply List.perm_iff_count.mpr
  intro i
  rw [List.nodup_range.count]
  simp only [List.mem_range]
  by_cases hi : i < n
  · have hceil : n ⌈/⌉ n = 1 := by
      rw [Nat.ceilDiv_eq_add_pred_div]
      exact (Nat.div_eq_iff hn).mpr ⟨by omega, by omega⟩
    rw [if_pos hi]
    rcases count_turns (c := c) (m := n) hi with h | h
    · rw [h, Nat.div_self hn]
    · rw [h, hceil]
  · rw [if_neg hi]
    exact List.count_eq_zero.mpr (fun hmem => hi (mem_turns_lt hn hmem))

end KimRpc.Library.Rotation
