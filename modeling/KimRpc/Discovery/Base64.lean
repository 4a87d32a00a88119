import KimRpc.Library.Base64Text
import KimRpc.Wire.RpcHeader

/-! Keys and values travel as base64 text. The decoder keeps the bits it has
read in an int of 32 bits, of which the upper ones are shifted out. -/

namespace KimRpc.Discovery

open Wire

def text (s : String) : Bytes := s.toList.map (fun c => UInt8.ofNat c.toNat)

def kB64Tab : Bytes := text "ABCDEFGHIJKLMNOPQRSTUVWXYZabcdefghijklmnopqrstuvwxyz0123456789+/"

def b64Char (n : ℕ) : UInt8 := kB64Tab.getD (n % 64) 0

def pad : UInt8 := 61

def b64Encode : Bytes → Bytes
  | x :: y :: z :: rest =>
    let n := x.toNat * 2 ^ 16 + y.toNat * 2 ^ 8 + z.toNat
    b64Char (n / 2 ^ 18) :: b64Char (n / 2 ^ 12) :: b64Char (n / 2 ^ 6) :: b64Char n ::
      b64Encode rest
  | [x, y] =>
    let n := x.toNat * 2 ^ 16 + y.toNat * 2 ^ 8
    [b64Char (n / 2 ^ 18), b64Char (n / 2 ^ 12), b64Char (n / 2 ^ 6), pad]
  | [x] =>
    let n := x.toNat * 2 ^ 16
    [b64Char (n / 2 ^ 18), b64Char (n / 2 ^ 12), pad, pad]
  | [] => []

/-- None stands for -1. -/
def b64Val (c : UInt8) : Option ℕ :=
  let c := c.toNat
  if 65 ≤ c ∧ c ≤ 90 then some (c - 65)
  else if 97 ≤ c ∧ c ≤ 122 then some (c - 97 + 26)
  else if 48 ≤ c ∧ c ≤ 57 then some (c - 48 + 52)
  else if c = 43 then some 62
  else if c = 47 then some 63
  else none

structure B64State where
  out : Bytes := []
  val : ℕ := 0
  bits : ℤ := -8

/-- One turn of the loop of `b64Decode`. The byte put out is among the low 12 bits, which the shift
of a negative `val` moves like any other. -/
def b64Step (s : B64State) (c : UInt8) : B64State :=
  if c = pad ∨ c = 10 ∨ c = 13 then s
  else match b64Val c with
    | none => s
    | some d =>
      let val := (s.val * 64) % 2 ^ 32 + d
      let bits := s.bits + 6
      if bits ≥ 0 then ⟨s.out ++ [UInt8.ofNat (val / 2 ^ bits.toNat % 256)], val, bits - 8⟩
        else ⟨s.out, val, bits⟩

def b64Decode (cs : Bytes) : Bytes := (cs.foldl b64Step {}).out

section standard

open Library.Base64Text

lemma b64Char_eq (n : ℕ) : b64Char n = char (n % 64) := by
  have htab : ∀ m < 64, kB64Tab.getD m 0 = char m := by decide +kernel
  exact htab _ (Nat.mod_lt _ (by omega))

lemma b64Encode_standard (s : Bytes) : b64Encode s = encode s := by
  induction s using b64Encode.induct with
  | case1 x y z rest ih =>
    have hx := x.toNat_lt
    have hy := y.toNat_lt
    have hz := z.toNat_lt
    obtain ⟨n, hn⟩ : ∃ n, n = x.toNat * 2 ^ 16 + y.toNat * 2 ^ 8 + z.toNat := ⟨_, rfl⟩
    have hfirst : n / 2 ^ 18 % 64 = x.toNat / 4 := by omega
    have hsecond : n / 2 ^ 12 % 64 = x.toNat % 4 * 16 + y.toNat / 16 := by omega
    have hthird : n / 2 ^ 6 % 64 = y.toNat % 16 * 4 + z.toNat / 64 := by omega
    have hfourth : n % 64 = z.toNat % 64 := by omega
    rw [b64Encode, encode_three, ih]
    simp only [b64Char_eq, ← hn, hfirst, hsecond, hthird, hfourth]
  | case2 x y =>
    have hx := x.toNat_lt
    have hy := y.toNat_lt
    obtain ⟨n, hn⟩ : ∃ n, n = x.toNat * 2 ^ 16 + y.toNat * 2 ^ 8 := ⟨_, rfl⟩
    have hfirst : n / 2 ^ 18 % 64 = x.toNat / 4 := by omega
    have hsecond : n / 2 ^ 12 % 64 = x.toNat % 4 * 16 + y.toNat / 16 := by omega
    have hthird : n / 2 ^ 6 % 64 = y.toNat % 16 * 4 := by omega
    rw [b64Encode, encode_two]
    simp only [b64Char_eq, ← hn, hfirst, hsecond, hthird, pad]
  | case3 x =>
    have hx := x.toNat_lt
    have hfirst : x.toNat * 2 ^ 16 / 2 ^ 18 % 64 = x.toNat / 4 := by omega
    have hsecond : x.toNat * 2 ^ 16 / 2 ^ 12 % 64 = x.toNat % 4 * 16 := by omega
    rw [b64Encode, encode_one]
    simp only [b64Char_eq, hfirst, hsecond, pad]
  | case4 => rfl

end standard

lemma b64Val_char : ∀ n < 64, b64Val (kB64Tab.getD n 0) = some n ∧
    kB64Tab.getD n 0 ∉ [pad, 10, 13] := by
  decide +kernel

lemma b64Step_char (s : B64State) (n : ℕ) :
    b64Step s (b64Char n) =
      let val := (s.val * 64) % 2 ^ 32 + n % 64
      if s.bits + 6 ≥ 0 then ⟨s.out ++ [UInt8.ofNat (val / 2 ^ (s.bits + 6).toNat % 256)], val,
        s.bits + 6 - 8⟩
      else ⟨s.out, val, s.bits + 6⟩ := by
  obtain ⟨hval, hplain⟩ := b64Val_char (n % 64) (Nat.mod_lt _ (by omega))
  simp only [List.mem_cons, List.not_mem_nil, or_false] at hplain
  rw [b64Step, b64Char, if_neg hplain, hval]

lemma b64Step_pad (s : B64State) : b64Step s pad = s := rfl

lemma b64Step_first (out : Bytes) (val n : ℕ) :
    ∃ v, b64Step ⟨out, val, -8⟩ (b64Char n) = ⟨out, v, -2⟩ ∧ v % 2 ^ 6 = n % 2 ^ 6 := by
  refine ⟨_, b64Step_char ⟨out, val, -8⟩ n, ?_⟩
  change (val * 64 % 2 ^ 32 + n % 64) % 2 ^ 6 = n % 2 ^ 6
  omega

lemma b64Step_next (out : Bytes) {val n i : ℕ} (hi : i ≤ 4)
    (hval : val % 2 ^ 6 = n / 2 ^ 6 % 2 ^ 6) :
    ∃ v, b64Step ⟨out, val, i - 6⟩ (b64Char n) =
      ⟨out ++ [UInt8.ofNat (n / 2 ^ i % 256)], v, i - 8⟩ ∧
      v % 2 ^ 6 = n % 2 ^ 6 := by
  have hlow : (val * 64 % 2 ^ 32 + n % 64) % 2 ^ 12 = n % 2 ^ 12 := by omega
  have hwindow (k : ℕ) : k / 2 ^ i % 256 = k % 2 ^ 12 / 2 ^ i % 256 := by
    interval_cases i <;> omega
  have hbyte : (val * 64 % 2 ^ 32 + n % 64) / 2 ^ i % 256 = n / 2 ^ i % 256 := by
    rw [hwindow, hlow, ← hwindow]
  refine ⟨val * 64 % 2 ^ 32 + n % 64, ?_, by omega⟩
  have hbits : (i : ℤ) - 6 + 6 = i := by omega
  rw [b64Step_char]
  simp only [hbits, Int.toNat_natCast, hbyte, ge_iff_le, Int.natCast_nonneg, if_true]

lemma byte_eq {m : ℕ} {x : UInt8} (h : m % 256 = x.toNat) : UInt8.ofNat (m % 256) = x := by
  rw [h, UInt8.ofNat_toNat]

lemma decode_byte (out : Bytes) (val : ℕ) {n : ℕ} {x : UInt8} (hx : n / 2 ^ 16 = x.toNat) :
    ∃ v, b64Step (b64Step ⟨out, val, -8⟩ (b64Char (n / 2 ^ 18))) (b64Char (n / 2 ^ 12)) =
      ⟨out ++ [x], v, -4⟩ ∧
      v % 2 ^ 6 = n / 2 ^ 6 / 2 ^ 6 % 2 ^ 6 := by
  have hlt := x.toNat_lt
  obtain ⟨v, hfirst, hv⟩ := b64Step_first out val (n / 2 ^ 18)
  obtain ⟨w, hsecond, hw⟩ := b64Step_next out (i := 4) (n := n / 2 ^ 12) le_rfl
    (hv.trans (by rw [Nat.div_div_eq_div_mul, ← pow_add]))
  have hbyte : UInt8.ofNat (n / 2 ^ 12 / 2 ^ 4 % 256) = x := byte_eq (by omega)
  refine ⟨w, ?_, ?_⟩
  · rw [hfirst]
    refine hsecond.trans ?_
    rw [hbyte]
    rfl
  · rw [hw, Nat.div_div_eq_div_mul, ← pow_add]

lemma decode_pair (out : Bytes) (val : ℕ) {n : ℕ} {x y : UInt8} (hx : n / 2 ^ 16 = x.toNat)
    (hy : n / 2 ^ 8 % 256 = y.toNat) : ∃ v,
    b64Step (b64Step (b64Step ⟨out, val, -8⟩ (b64Char (n / 2 ^ 18))) (b64Char (n / 2 ^ 12)))
      (b64Char (n / 2 ^ 6)) =
      ⟨out ++ [x, y], v, -6⟩ ∧ v % 2 ^ 6 = n / 2 ^ 6 % 2 ^ 6 := by
  obtain ⟨v, hv, hval⟩ := decode_byte out val hx
  obtain ⟨w, hthird, hw⟩ := b64Step_next (out ++ [x]) (i := 2) (n := n / 2 ^ 6) (by omega) hval
  have hbyte : UInt8.ofNat (n / 2 ^ 6 / 2 ^ 2 % 256) = y := byte_eq (by omega)
  refine ⟨w, ?_, hw⟩
  rw [hv]
  refine hthird.trans ?_
  rw [hbyte, List.append_assoc]
  rfl

lemma foldl_b64Encode (s out : Bytes) (val : ℕ) :
    ((b64Encode s).foldl b64Step ⟨out, val, -8⟩).out = out ++ s := by
  induction s using b64Encode.induct generalizing out val with
  | case1 x y z rest ih =>
    have hx := x.toNat_lt
    have hy := y.toNat_lt
    have hz := z.toNat_lt
    obtain ⟨n, hn⟩ : ∃ n, n = x.toNat * 2 ^ 16 + y.toNat * 2 ^ 8 + z.toNat := ⟨_, rfl⟩
    obtain ⟨v, hv, hval⟩ := decode_pair out val (n := n) (x := x) (y := y) (by omega) (by omega)
    obtain ⟨w, hfourth, -⟩ := b64Step_next (out ++ [x, y]) (i := 0) (n := n) (by omega) hval
    have hbyte : UInt8.ofNat (n / 2 ^ 0 % 256) = z := byte_eq (by omega)
    have hgroup : b64Step ⟨out ++ [x, y], v, -6⟩ (b64Char n) = ⟨out ++ [x, y, z], w, -8⟩ := by
      refine hfourth.trans ?_
      rw [hbyte, List.append_assoc]
      rfl
    rw [b64Encode]
    simp only [List.foldl_cons, ← hn]
    rw [hv, hgroup, ih, List.append_assoc]
    rfl
  | case2 x y =>
    have hx := x.toNat_lt
    have hy := y.toNat_lt
    obtain ⟨n, hn⟩ : ∃ n, n = x.toNat * 2 ^ 16 + y.toNat * 2 ^ 8 := ⟨_, rfl⟩
    obtain ⟨v, hv, -⟩ := decode_pair out val (n := n) (x := x) (y := y) (by omega) (by omega)
    rw [b64Encode]
    simp only [List.foldl_cons, List.foldl_nil, b64Step_pad, ← hn]
    rw [hv]
  | case3 x =>
    have hx := x.toNat_lt
    obtain ⟨n, hn⟩ : ∃ n, n = x.toNat * 2 ^ 16 := ⟨_, rfl⟩
    obtain ⟨v, hv, -⟩ := decode_byte out val (n := n) (x := x) (by omega)
    rw [b64Encode]
    simp only [List.foldl_cons, List.foldl_nil, b64Step_pad, ← hn]
    rw [hv]
  | case4 => simp [b64Encode]

lemma decode_encode (s : Bytes) : b64Decode (b64Encode s) = s := foldl_b64Encode s [] 0

lemma b64Encode_length (s : Bytes) : (b64Encode s).length = 4 * ((s.length + 2) / 3) := by
  induction s using b64Encode.induct with
  | case1 x y z rest ih =>
    simp only [b64Encode, List.length_cons, ih]
    omega
  | case2 x y | case3 x | case4 => simp [b64Encode]

/-- The second text is the first one with characters outside the alphabet put in anywhere. -/
inductive Inserted : Bytes → Bytes → Prop
  | nil : Inserted [] []
  | keep {cs ds : Bytes} (c : UInt8) : Inserted cs ds → Inserted (c :: cs) (c :: ds)
  | insert {cs ds : Bytes} {c : UInt8} : c ∉ kB64Tab → Inserted cs ds → Inserted cs (c :: ds)

lemma b64Val_outside : ∀ n < 256, UInt8.ofNat n ∉ kB64Tab → b64Val (UInt8.ofNat n) = none := by
  decide +kernel

lemma b64Step_outside (s : B64State) {c : UInt8} (hc : c ∉ kB64Tab) : b64Step s c = s := by
  have hval : b64Val c = none := by
    rw [← UInt8.ofNat_toNat (x := c)] at hc ⊢
    exact b64Val_outside c.toNat c.toNat_lt hc
  rw [b64Step, hval]
  exact ite_self _

lemma Inserted.foldl {cs ds : Bytes} (h : Inserted cs ds) (s : B64State) :
    ds.foldl b64Step s = cs.foldl b64Step s := by
  induction h generalizing s with
  | nil => rfl
  | keep c _ ih => exact ih _
  | insert hc _ ih =>
    rw [List.foldl_cons, b64Step_outside s hc]
    exact ih s

theorem base64_round_trip (s : Bytes) :
    b64Decode (b64Encode s) = s ∧ (∀ cs, Inserted (b64Encode s) cs → b64Decode cs = s) ∧
      (b64Encode s).length = 4 * ((s.length + 2) / 3) := by
  refine ⟨decode_encode s, fun cs hcs => ?_, b64Encode_length s⟩
  rw [b64Decode, hcs.foldl]
  exact decode_encode s

example : b64Decode (text "aGk\nh!\n") = text "hi!" := by decide

end KimRpc.Discovery
