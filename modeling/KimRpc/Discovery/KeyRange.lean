import KimRpc.Wire.RpcHeader

/-! Key ranges of the store, and the end of the range of all keys with a given
prefix. -/

namespace KimRpc.Discovery

open Wire

/-- Keys are compared as unsigned bytes; the range end of one zero byte is no bound. -/
def InRange (key rangeEnd k : Bytes) : Prop := key ≤ k ∧ (rangeEnd = [0] ∨ k < rangeEnd)

instance (key rangeEnd k : Bytes) : Decidable (InRange key rangeEnd k) :=
  inferInstanceAs (Decidable (_ ∧ _))

def bump (p : Bytes) : ℕ → Bytes
  | 0 => [0]
  | i + 1 => if p.getD i 0 < 0xff then (p.set i (p.getD i 0 + 1)).take (i + 1) else bump p i

/-- The loop counts with an int. -/
def prefixEnd (p : Bytes) : Bytes :=
  bump p (if p.length % 2 ^ 32 < 2 ^ 31 then p.length % 2 ^ 32 else 0)

lemma cut_unique {c : UInt8} {xs ys xs' ys' : Bytes} (h : c ∉ xs) (h' : c ∉ xs')
    (he : xs ++ c :: ys = xs' ++ c :: ys') :
    xs = xs' ∧ ys = ys' := by
  have hidx := congrArg (List.idxOf c) he
  rw [List.idxOf_append_of_notMem h, List.idxOf_append_of_notMem h', List.idxOf_cons_self,
    List.idxOf_cons_self] at hidx
  obtain ⟨hxs, hys⟩ := List.append_inj he (by omega)
  exact ⟨hxs, (List.cons.inj hys).2⟩

def successor : Bytes → Option Bytes
  | [] => none
  | b :: bs =>
    match successor bs with
    | some e => some (b :: e)
    | none => if b < 0xff then some [b + 1] else none

lemma successor_snoc (p : Bytes) (b : UInt8) :
    successor (p ++ [b]) = if b < 0xff then some (p ++ [b + 1]) else successor p := by
  induction p with
  | nil => rfl
  | cons c p ih =>
    rw [List.cons_append, successor, ih]
    by_cases hb : b < 0xff
    · simp only [hb, if_true, List.cons_append]
    · simp only [hb, if_false]
      rfl

lemma bump_eq (p : Bytes) {i : ℕ} (hi : i ≤ p.length) :
    bump p i = (successor (p.take i)).getD [0] := by
  induction i with
  | zero => rfl
  | succ i ih =>
    have hget : p.getD i 0 = p[i] := by
      simp [List.getD_eq_getElem?_getD, List.getElem?_eq_getElem hi]
    have htake : p.take (i + 1) = p.take i ++ [p[i]] := by simp
    rw [bump, hget, htake, successor_snoc]
    by_cases hb : p[i] < 0xff
    · have hset : (p.set i (p[i] + 1)).take (i + 1) = p.take i ++ [p[i] + 1] := by
        rw [List.take_set, htake, List.set_append_right] <;>
          simp [Nat.min_eq_left (Nat.le_of_lt hi)]
      rw [if_pos hb, if_pos hb, hset, Option.getD_some]
    · rw [if_neg hb, if_neg hb]
      exact ih (Nat.le_of_lt hi)

lemma prefixEnd_eq {p : Bytes} (hp : p.length < 2 ^ 31) : prefixEnd p = (successor p).getD [0] := by
  have hlen : p.length % 2 ^ 32 = p.length := Nat.mod_eq_of_lt (by omega)
  rw [prefixEnd, hlen, if_pos hp, bump_eq p le_rfl, List.take_length]

lemma successor_ne (p : Bytes) : successor p ≠ some [0] := by
  cases p with
  | nil => simp [successor]
  | cons b p =>
    rw [successor]
    cases he : successor p with
    | some e =>
      have hnil : e ≠ [] := by
        cases p with
        | nil => simp [successor] at he
        | cons c p =>
          rw [successor] at he
          rintro rfl
          cases hs : successor p <;> simp [hs] at he
      simp [hnil]
    | none =>
      by_cases hb : b < 0xff
      · have hpos : b + 1 ≠ 0 := by
          have hlt : b.toNat < 255 := hb
          rw [Ne, ← UInt8.toNat_inj, UInt8.toNat_add]
          change ¬ (b.toNat + 1) % 256 = 0
          omega
        simp [hb, hpos]
      · simp [hb]

lemma below_next (b c : UInt8) (k : Bytes) :
    (∀ e ∈ if b < 0xff then some [b + 1] else none, c :: k < e) ↔ c ≤ b := by
  have hc := c.toNat_lt
  by_cases hb : b < 0xff
  · have hlt : b.toNat < 255 := hb
    have hsum : (b + 1).toNat = b.toNat + 1 := by
      rw [UInt8.toNat_add]
      change (b.toNat + 1) % 256 = _
      omega
    rw [if_pos hb]
    simp only [Option.mem_some_iff, forall_eq', List.cons_lt_cons_iff, List.not_lt_nil, and_false,
      or_false]
    rw [UInt8.lt_iff_toNat_lt, UInt8.le_iff_toNat_le, hsum, Nat.lt_succ_iff]
  · have hlast : ¬ b.toNat < 255 := hb
    rw [if_neg hb, UInt8.le_iff_toNat_le]
    simp only [Option.not_mem_none, false_implies, implies_true, true_iff]
    omega

lemma le_lt_successor (p k : Bytes) : (p ≤ k ∧ ∀ e ∈ successor p, k < e) ↔ p <+: k := by
  induction p generalizing k with
  | nil => simp [successor]
  | cons b p ih =>
    cases k with
    | nil => simp
    | cons c k =>
      rw [List.cons_prefix_cons, ← ih k, successor, List.cons_le_cons_iff]
      cases he : successor p with
      | some e =>
        simp only [Option.mem_some_iff, forall_eq', List.cons_lt_cons_iff]
        constructor
        · rintro ⟨hbc | ⟨rfl, hle⟩, hcb | ⟨hc, hlt⟩⟩
          · exact absurd hcb (UInt8.lt_asymm hbc)
          · exact absurd hbc (by simp [hc])
          · exact absurd hcb (UInt8.lt_irrefl _)
          · exact ⟨rfl, hle, hlt⟩
        · rintro ⟨rfl, hle, hlt⟩
          exact ⟨.inr ⟨rfl, hle⟩, .inr ⟨rfl, hlt⟩⟩
      | none =>
        rw [below_next]
        constructor
        · rintro ⟨hbc | ⟨rfl, hle⟩, hcb⟩
          · exact absurd hbc (UInt8.not_lt.mpr hcb)
          · exact ⟨rfl, hle, by simp⟩
        · rintro ⟨rfl, hle, -⟩
          exact ⟨.inr ⟨rfl, hle⟩, UInt8.le_refl _⟩

lemma inRange_successor (p k : Bytes) : InRange p ((successor p).getD [0]) k ↔ p <+: k := by
  rw [← le_lt_successor, InRange]
  cases he : successor p with
  | none => simp
  | some e =>
    have hne : e ≠ [0] := by
      rintro rfl
      exact successor_ne p he
    simp [hne]

theorem prefixEnd_selects {p : Bytes} (hp : p.length < 2 ^ 31) (k : Bytes) :
    InRange p (prefixEnd p) k ↔ p <+: k := by
  rw [prefixEnd_eq hp]
  exact inRange_successor p k

theorem prefixEnd_selects_sample : InRange [7, 255, 255] [8] [7, 255, 255, 0] ∧
    ¬ InRange [7, 255, 255] [8] [8] := by
  have hend : prefixEnd [7, 255, 255] = [8] := by decide
  rw [← hend, prefixEnd_selects (by decide), prefixEnd_selects (by decide)]
  decide

/-- A prefix within the int of `prefixEnd`, as one made of the names in a service descriptor is. -/
structure KeyPrefix where
  bytes : Bytes
  short : bytes.length < 2 ^ 31
  deriving DecidableEq

def KeyPrefix.Covers (p : KeyPrefix) (k : Bytes) : Prop := InRange p.bytes (prefixEnd p.bytes) k

instance (p : KeyPrefix) : DecidablePred p.Covers :=
  fun _ => inferInstanceAs (Decidable (InRange _ _ _))

lemma KeyPrefix.covers_iff (p : KeyPrefix) (k : Bytes) : p.Covers k ↔ p.bytes <+: k := by
  rw [Covers, prefixEnd_eq p.short]
  exact inRange_successor p.bytes k

end KimRpc.Discovery
