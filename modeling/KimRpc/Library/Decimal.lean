import Mathlib.Tactic

/-! Natural numbers as decimal text. -/

namespace KimRpc.Library.Decimal

def digit (d : ℕ) : UInt8 := UInt8.ofNat (48 + d)

def IsDigit (c : UInt8) : Prop := 48 ≤ c.toNat ∧ c.toNat ≤ 57

instance : DecidablePred IsDigit := fun _ => inferInstanceAs (Decidable (_ ∧ _))

def decimal (n : ℕ) : List UInt8 := if n = 0 then [digit 0] else (Nat.digits 10 n).reverse.map digit

def readDigits (cs : List UInt8) : ℕ := cs.foldl (fun n c => 10 * n + (c.toNat - 48)) 0

lemma digit_toNat {d : ℕ} (h : d < 10) : (digit d).toNat = 48 + d := by
  simp [digit]
  omega

lemma isDigit_digit {d : ℕ} (h : d < 10) : IsDigit (digit d) := by
  rw [IsDigit, digit_toNat h]
  omega

lemma decimal_ne_nil (n : ℕ) : decimal n ≠ [] := by
  rw [decimal]
  by_cases hn : n = 0
  · simp [hn]
  · simpa [hn] using Nat.digits_ne_nil_iff_ne_zero.mpr hn

lemma decimal_digits (n : ℕ) : ∀ c ∈ decimal n, IsDigit c := by
  rw [decimal]
  by_cases hn : n = 0
  · simpa [hn] using isDigit_digit (d := 0) (by omega)
  · rw [if_neg hn]
    intro c hc
    obtain ⟨d, hd, rfl⟩ := List.mem_map.mp hc
    exact isDigit_digit (Nat.digits_lt_base (by omega) (List.mem_reverse.mp hd))

lemma readDigits_snoc (cs : List UInt8) (c : UInt8) :
    readDigits (cs ++ [c]) = 10 * readDigits cs + (c.toNat - 48) := by
  simp [readDigits]

lemma readDigits_map {ds : List ℕ} (h : ∀ d ∈ ds, d < 10) :
    readDigits (ds.reverse.map digit) = Nat.ofDigits 10 ds := by
  induction ds with
  | nil => rfl
  | cons d ds ih =>
    rw [List.forall_mem_cons] at h
    rw [List.reverse_cons, List.map_append, List.map_singleton, readDigits_snoc, ih h.2,
      digit_toNat h.1,
      Nat.ofDigits_cons]
    exact Nat.add_comm _ _ |>.trans (by simp)

lemma readDigits_decimal (n : ℕ) : readDigits (decimal n) = n := by
  rw [decimal]
  by_cases hn : n = 0
  · rw [if_pos hn, hn]
    rfl
  · rw [if_neg hn, readDigits_map (fun d => Nat.digits_lt_base (by omega)), Nat.ofDigits_digits]

end KimRpc.Library.Decimal
