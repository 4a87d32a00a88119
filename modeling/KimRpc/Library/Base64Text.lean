import Mathlib.Tactic

/-! Standard base64 by its bits: the bytes as one string of bits, cut into groups of
six, a character for each, and padding to a multiple of four characters. -/

namespace KimRpc.Library.Base64Text

def bits (b : UInt8) : List Bool := [7, 6, 5, 4, 3, 2, 1, 0].map b.toNat.testBit

def number (bs : List Bool) : ℕ := bs.foldl (fun n b => 2 * n + b.toNat) 0

def sextets : List Bool → List ℕ
  | a :: b :: c :: d :: e :: f :: rest => number [a, b, c, d, e, f] :: sextets rest
  | [] => []
  | short => [number (short ++ List.replicate (6 - short.length) false)]

def char (n : ℕ) : UInt8 :=
  if n < 26 then UInt8.ofNat (65 + n)
  else if n < 52 then UInt8.ofNat (97 + (n - 26))
  else if n < 62 then UInt8.ofNat (48 + (n - 52))
  else if n = 62 then 43
  else 47

def padded (cs : List UInt8) : List UInt8 := cs ++ List.replicate ((4 - cs.length % 4) % 4) 61

def encode (s : List UInt8) : List UInt8 := padded ((sextets (s.flatMap bits)).map char)

lemma padded_group (a b c d : UInt8) (cs : List UInt8) :
    padded (a :: b :: c :: d :: cs) = a :: b :: c :: d :: padded cs := by
  have hlen : (a :: b :: c :: d :: cs).length % 4 = cs.length % 4 := by
    simp only [List.length_cons]
    omega
  rw [padded, hlen]
  rfl

lemma number_append (as bs : List Bool) :
    number (as ++ bs) = number as * 2 ^ bs.length + number bs := by
  induction bs using List.reverseRecOn with
  | nil => simp [number]
  | append_singleton bs b ih =>
    rw [number, ← List.append_assoc, List.foldl_append, ← number, ih, List.length_append, pow_add]
    have hbs : number (bs ++ [b]) = 2 * number bs + b.toNat := by simp [number]
    rw [hbs]
    simp only [List.foldl_cons, List.foldl_nil, List.length_singleton]
    ring

def window (n i k : ℕ) : List Bool := (List.range k).map (fun j => n.testBit (i - j))

lemma number_windows : ∀ n < 256, number (window n 7 6) = n / 4 ∧ number (window n 1 2) = n % 4 ∧
    number (window n 7 4) = n / 16 ∧ number (window n 3 4) = n % 16 ∧
    number (window n 7 2) = n / 64 ∧
    number (window n 5 6) = n % 64 := by
  decide +kernel

section groups

variable (x y z : UInt8)

lemma number_first : number (window x.toNat 7 6) = x.toNat / 4 := (number_windows _ x.toNat_lt).1

lemma number_second :
    number (window x.toNat 1 2 ++ window y.toNat 7 4) = x.toNat % 4 * 16 + y.toNat / 16 := by
  rw [number_append, (number_windows _ x.toNat_lt).2.1, (number_windows _ y.toNat_lt).2.2.1]
  rfl

lemma number_third :
    number (window y.toNat 3 4 ++ window z.toNat 7 2) = y.toNat % 16 * 4 + z.toNat / 64 := by
  rw [number_append, (number_windows _ y.toNat_lt).2.2.2.1, (number_windows _ z.toNat_lt).2.2.2.2.1]
  rfl

lemma number_fourth : number (window z.toNat 5 6) = z.toNat % 64 :=
  (number_windows _ z.toNat_lt).2.2.2.2.2

lemma number_zeros (as : List Bool) (k : ℕ) :
    number (as ++ List.replicate k false) = number as * 2 ^ k := by
  have hzero : number (List.replicate k false) = 0 := by
    induction k with
    | zero => rfl
    | succ k ih =>
      rw [List.replicate_succ', number_append, ih]
      rfl
  rw [number_append, hzero, List.length_replicate, Nat.add_zero]

lemma encode_three (rest : List UInt8) : encode (x :: y :: z :: rest) =
    char (x.toNat / 4) :: char (x.toNat % 4 * 16 + y.toNat / 16) :: char
      (y.toNat % 16 * 4 + z.toNat / 64) ::
      char (z.toNat % 64) :: encode rest := by
  have hbits : (x :: y :: z :: rest).flatMap bits = window x.toNat 7 6 ++
      ((window x.toNat 1 2 ++ window y.toNat 7 4) ++
      ((window y.toNat 3 4 ++ window z.toNat 7 2) ++
      (window z.toNat 5 6 ++ rest.flatMap bits))) := rfl
  have hsextets : sextets ((x :: y :: z :: rest).flatMap bits) =
      number (window x.toNat 7 6) :: number (window x.toNat 1 2 ++ window y.toNat 7 4) ::
      number (window y.toNat 3 4 ++ window z.toNat 7 2) ::
      number (window z.toNat 5 6) :: sextets (rest.flatMap bits) := by
    rw [hbits]
    rfl
  rw [encode, hsextets, number_first, number_second, number_third, number_fourth]
  exact padded_group _ _ _ _ _

lemma encode_two : encode [x, y] =
    [char (x.toNat / 4), char (x.toNat % 4 * 16 + y.toNat / 16), char (y.toNat % 16 * 4), 61] := by
  have hsextets : sextets ([x, y].flatMap bits) = [number (window x.toNat 7 6),
      number (window x.toNat 1 2 ++ window y.toNat 7 4),
      number (window y.toNat 3 4 ++ List.replicate 2 false)] := rfl
  rw [encode, hsextets, number_first, number_second, number_zeros,
    (number_windows _ y.toNat_lt).2.2.2.1]
  rfl

lemma encode_one : encode [x] = [char (x.toNat / 4), char (x.toNat % 4 * 16), 61, 61] := by
  have hsextets : sextets ([x].flatMap bits) = [number (window x.toNat 7 6),
      number (window x.toNat 1 2 ++ List.replicate 4 false)] := rfl
  rw [encode, hsextets, number_first, number_zeros, (number_windows _ x.toNat_lt).2.1]
  rfl

end groups

end KimRpc.Library.Base64Text
