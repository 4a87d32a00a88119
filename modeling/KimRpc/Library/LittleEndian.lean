import Mathlib.Tactic

/-! Fixed-width little-endian integers as byte lists. -/

namespace KimRpc.Library.LittleEndian

def encode : ℕ → ℕ → List UInt8
  | 0, _ => []
  | n + 1, x => UInt8.ofNat x :: encode n (x / 256)

def value : List UInt8 → ℕ
  | [] => 0
  | b :: bs => b.toNat + 256 * value bs

@[simp] lemma encode_length (n x : ℕ) : (encode n x).length = n := by
  induction n generalizing x with
  | zero => rfl
  | succ n ih => simp [encode, ih]

lemma value_lt (bs : List UInt8) : value bs < 256 ^ bs.length := by
  induction bs with
  | nil => simp [value]
  | cons b bs ih =>
    have hb : b.toNat < 256 := b.toNat_lt
    simp only [value, List.length_cons, pow_succ]
    omega

lemma value_encode (n x : ℕ) : value (encode n x) = x % 256 ^ n := by
  induction n generalizing x with
  | zero => simp [encode, value, Nat.mod_one]
  | succ n ih =>
    have hb : (UInt8.ofNat x).toNat = x % 256 := by simp
    simp only [encode, value, ih, hb, pow_succ']
    exact (Nat.mod_mul).symm

lemma value_encode_of_lt {n x : ℕ} (h : x < 256 ^ n) : value (encode n x) = x := by
  rw [value_encode, Nat.mod_eq_of_lt h]

lemma encode_value (bs : List UInt8) : encode bs.length (value bs) = bs := by
  induction bs with
  | nil => rfl
  | cons b bs ih =>
    have hb : b.toNat < 256 := b.toNat_lt
    have hdiv : (b.toNat + 256 * value bs) / 256 = value bs := by omega
    have hlow : UInt8.ofNat (b.toNat + 256 * value bs) = b := by
      apply UInt8.toNat_inj.mp
      simp
    simp only [List.length_cons, value, encode, hdiv, hlow, ih]

end KimRpc.Library.LittleEndian
