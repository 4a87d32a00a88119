import KimRpc.Discovery.Base64
import KimRpc.Library.Decimal
import Mathlib.Data.List.TakeWhile

/-! Parsed JSON values and the accessors that the client of the store uses. -/

namespace KimRpc.Discovery

open Library.Decimal Wire

/-- A number is what `get<int64_t>` makes of it. -/
inductive Json where
  | null
  | boolean (b : Bool)
  | number (n : ℤ)
  | string (s : Bytes)
  | array (items : List Json)
  | object (members : List (String × Json))

inductive TypeError where
  | typeError
  deriving DecidableEq

namespace Json

def find (field : String) : Json → Option Json
  | object members => members.lookup field
  | _ => none

/-- The member as a string; a value that is no object, or a member that is no string, is an error.
-/
def value (field : String) (default : Bytes) : Json → Except TypeError Bytes
  | object members =>
    match members.lookup field with
    | none => .ok default
    | some (string s) => .ok s
    | some _ => .error .typeError
  | _ => .error .typeError

def IsObject : Json → Prop
  | object _ => True
  | _ => False

def IsString (s : Bytes) : Json → Prop
  | string t => t = s
  | _ => False

instance : DecidablePred IsObject
  | object _ => .isTrue trivial
  | null | boolean _ | number _ | string _ | array _ => .isFalse id

instance (s : Bytes) : DecidablePred (IsString s)
  | string t => inferInstanceAs (Decidable (t = s))
  | null | boolean _ | number _ | array _ | object _ => .isFalse id

variable {j : Json} {field : String} {default s : Bytes}

lemma value_absent (hj : j.IsObject) (h : j.find field = none) :
    j.value field default = .ok default := by
  cases j with
  | object members =>
    rw [find] at h
    rw [value, h]
  | _ => cases hj

lemma value_present {v : Json} (h : j.find field = some v) (hv : v.IsString s) :
    j.value field default = .ok s := by
  cases j with
  | object members =>
    rw [find] at h
    rw [value, h]
    cases v with
    | string t =>
      obtain rfl : t = s := hv
      rfl
    | _ => cases hv
  | _ => cases h

end Json

def isSpace (c : UInt8) : Bool := c = 32 ∨ 9 ≤ c.toNat ∧ c.toNat ≤ 13

/-- `std::stoll`; none is an exception. -/
def stoll (s : Bytes) : Option ℤ :=
  let s := s.dropWhile isSpace
  let digits :=
    (if s.head? = some 43 ∨ s.head? = some 45 then s.tail else s).takeWhile (fun c => IsDigit c)
  let n : ℤ := if s.head? = some 45 then -readDigits digits else readDigits digits
  if digits = [] ∨ n < -2 ^ 63 ∨ 2 ^ 63 ≤ n then none else some n

lemma stoll_digits {ds : Bytes} (hne : ds ≠ []) (hdigits : ∀ c ∈ ds, IsDigit c)
    (h : readDigits ds < 2 ^ 63) :
    stoll ds = some (readDigits ds : ℤ) := by
  have hall : ds.takeWhile (fun c => IsDigit c) = ds := by
    apply List.takeWhile_eq_self_iff.mpr
    simpa using hdigits
  obtain ⟨c, cs, hcs⟩ := List.exists_cons_of_ne_nil hne
  have hc : IsDigit c := hdigits c (by simp [hcs])
  have h48 : 48 ≤ c.toNat := hc.1
  have hother (d : UInt8) (hd : d.toNat < 48) : c ≠ d := by
    rintro rfl
    omega
  have hplus : c ≠ 43 := hother 43 (by decide)
  have hminus : c ≠ 45 := hother 45 (by decide)
  have hspace : isSpace c = false := by
    simp [isSpace, hother 32 (by decide), show ¬ c.toNat ≤ 13 by omega]
  have hdrop : ds.dropWhile isSpace = ds := by
    rw [hcs, List.dropWhile_cons_of_neg (by simp [hspace])]
  have hsign : ds.head? = some c := by rw [hcs, List.head?_cons]
  rw [stoll]
  simp only [hdrop, hsign, Option.some.injEq, hplus, hminus, or_self, if_false, hall, hne, false_or]
  exact if_neg (by omega)

lemma stoll_decimal {n : ℕ} (hn : n < 2 ^ 63) : stoll (decimal n) = some (n : ℤ) := by
  rw [← readDigits_decimal n] at hn
  rw [stoll_digits (decimal_ne_nil n) (decimal_digits n) hn, readDigits_decimal]

def jint (j : Json) (field : String) (default : ℤ) : ℤ :=
  match j.find field with
  | some (.string s) => (stoll s).getD default
  | some (.number n) => n
  | _ => default

lemma jint_decimal {j v : Json} {field : String} {default : ℤ} {n : ℕ} (hn : n < 2 ^ 63)
    (h : j.find field = some v)
    (hv : v.IsString (decimal n)) : jint j field default = n := by
  cases v with
  | string t =>
    obtain rfl : t = decimal n := hv
    rw [jint, h]
    simp only [stoll_decimal hn, Option.getD_some]
  | _ => cases hv

end KimRpc.Discovery
