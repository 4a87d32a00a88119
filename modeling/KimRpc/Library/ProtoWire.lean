import Mathlib.Tactic

/-! The protobuf wire format: varints, tagged fields and field lists. The
deprecated group wire types are not accepted. -/

namespace KimRpc.Library.ProtoWire

def varint : ℕ → ℕ → List UInt8
  | 0, _ => []
  | n + 1, x =>
    if x < 128 then [UInt8.ofNat x] else UInt8.ofNat (x % 128 + 128) :: varint n (x / 128)

def readVarint : ℕ → List UInt8 → Option (ℕ × List UInt8)
  | 0, _ | _, [] => none
  | n + 1, b :: bs =>
    if b.toNat < 128 then some (b.toNat, bs)
    else (readVarint n bs).map (fun r => (b.toNat - 128 + 128 * r.1, r.2))

lemma readVarint_varint (n x : ℕ) (tail : List UInt8) (hx : x < 128 ^ (n + 1)) :
    readVarint (n + 1) (varint (n + 1) x ++ tail) = some (x, tail) := by
  induction n generalizing x with
  | zero =>
    have hb : (UInt8.ofNat x).toNat = x := by simp at hx ⊢; omega
    have hs : x < 128 := by simpa using hx
    simp [varint, readVarint, hs, hb]
  | succ n ih =>
    by_cases hs : x < 128
    · have hb : (UInt8.ofNat x).toNat = x := by simp; omega
      simp [varint, readVarint, hs, hb]
    · have hb : (UInt8.ofNat (x % 128 + 128)).toNat = x % 128 + 128 := by
        rw [UInt8.toNat_ofNat']
        omega
      have hdiv : x / 128 < 128 ^ (n + 1) := by
        rw [Nat.div_lt_iff_lt_mul (by omega), ← pow_succ]
        exact hx
      rw [varint, if_neg hs, List.cons_append, readVarint, hb, if_neg (by omega), ih _ hdiv]
      simp only [Option.map_some, Option.some.injEq, Prod.mk.injEq, and_true]
      omega

lemma varint_ne_nil (n x : ℕ) : varint (n + 1) x ≠ [] := by
  rw [varint]
  split <;> simp

inductive Value where
  | varint (v : ℕ)
  | fixed64 (bs : List UInt8)
  | bytes (bs : List UInt8)
  | fixed32 (bs : List UInt8)
  deriving DecidableEq, Repr

structure Field where
  number : ℕ
  value : Value
  deriving DecidableEq, Repr

def Value.wireType : Value → ℕ
  | .varint _ => 0
  | .fixed64 _ => 1
  | .bytes _ => 2
  | .fixed32 _ => 5

def Value.payload : Value → List UInt8
  | .varint v => ProtoWire.varint 10 v
  | .bytes bs => ProtoWire.varint 10 bs.length ++ bs
  | .fixed64 bs | .fixed32 bs => bs

def Value.Fits : Value → Prop
  | .varint v => v < 2 ^ 64
  | .bytes bs => bs.length < 2 ^ 64
  | .fixed64 bs => bs.length = 8
  | .fixed32 bs => bs.length = 4

def Field.Fits (f : Field) : Prop :=
  0 < f.number ∧ f.number < 2 ^ 29 ∧ f.value.Fits

def writeField (f : Field) : List UInt8 :=
  varint 10 (8 * f.number + f.value.wireType) ++ f.value.payload

def takeExact (n : ℕ) (bs : List UInt8) : Option (List UInt8 × List UInt8) :=
  if bs.length < n then none else some (bs.take n, bs.drop n)

def readValue (wireType : ℕ) (bs : List UInt8) : Option (Value × List UInt8) :=
  match wireType with
  | 0 => (readVarint 10 bs).map (fun r => (.varint r.1, r.2))
  | 1 => (takeExact 8 bs).map (fun r => (.fixed64 r.1, r.2))
  | 2 => (readVarint 10 bs).bind (fun r => (takeExact r.1 r.2).map (fun s => (.bytes s.1, s.2)))
  | 5 => (takeExact 4 bs).map (fun r => (.fixed32 r.1, r.2))
  | _ => none

def readField (bs : List UInt8) : Option (Field × List UInt8) :=
  (readVarint 10 bs).bind (fun tag =>
    if tag.1 / 8 = 0 then none
    else (readValue (tag.1 % 8) tag.2).map (fun r => (⟨tag.1 / 8, r.1⟩, r.2)))

def readFields : ℕ → List UInt8 → Option (List Field)
  | _, [] => some []
  | 0, _ => none
  | n + 1, bs => (readField bs).bind (fun r => (readFields n r.2).map (r.1 :: ·))

def fields (bs : List UInt8) : Option (List Field) := readFields bs.length bs

lemma takeExact_append (bs tail : List UInt8) :
    takeExact bs.length (bs ++ tail) = some (bs, tail) := by
  simp [takeExact]

lemma readVarint_ten {x : ℕ} (tail : List UInt8) (hx : x < 2 ^ 64) :
    readVarint 10 (varint 10 x ++ tail) = some (x, tail) :=
  readVarint_varint 9 x tail (by omega)

lemma readValue_payload (v : Value) (tail : List UInt8) (hv : v.Fits) :
    readValue v.wireType (v.payload ++ tail) = some (v, tail) := by
  cases v with
  | varint v => simp [readValue, Value.wireType, Value.payload, readVarint_ten tail hv]
  | fixed64 bs =>
    have hb := takeExact_append bs tail
    rw [show bs.length = 8 from hv] at hb
    simp [readValue, Value.wireType, Value.payload, hb]
  | bytes bs =>
    simp [readValue, Value.wireType, Value.payload, List.append_assoc,
      readVarint_ten (bs ++ tail) hv, takeExact_append]
  | fixed32 bs =>
    have hb := takeExact_append bs tail
    rw [show bs.length = 4 from hv] at hb
    simp [readValue, Value.wireType, Value.payload, hb]

lemma readField_writeField (f : Field) (tail : List UInt8) (hf : f.Fits) :
    readField (writeField f ++ tail) = some (f, tail) := by
  obtain ⟨hpos, hlt, hv⟩ := hf
  have hw : f.value.wireType < 8 := by cases f.value <;> simp [Value.wireType]
  have htag : 8 * f.number + f.value.wireType < 2 ^ 64 := by omega
  have hdiv : (8 * f.number + f.value.wireType) / 8 = f.number := by omega
  have hmod : (8 * f.number + f.value.wireType) % 8 = f.value.wireType := by omega
  have hge : 8 ≤ 8 * f.number + f.value.wireType := by omega
  simp [readField, writeField, List.append_assoc, readVarint_ten _ htag, hdiv, hmod,
    readValue_payload f.value tail hv, hge]

lemma writeField_ne_nil (f : Field) : writeField f ≠ [] := by
  simp [writeField, varint_ne_nil]

lemma readFields_flatMap (fs : List Field) (n : ℕ) (hfit : ∀ f ∈ fs, f.Fits) (hn : fs.length ≤ n) :
    readFields n (fs.flatMap writeField) = some fs := by
  induction fs generalizing n with
  | nil => simp [readFields]
  | cons f fs ih =>
    obtain ⟨n, rfl⟩ : ∃ m, n = m + 1 := ⟨n - 1, by simp at hn; omega⟩
    have hne : writeField f ++ fs.flatMap writeField ≠ [] := by simp [writeField_ne_nil]
    have hrest := ih n (fun g hg => hfit g (by simp [hg])) (by simpa using hn)
    rw [List.flatMap_cons, readFields]
    · simp [readField_writeField f _ (hfit f (by simp)), hrest]
    · exact hne

lemma length_le_flatMap (fs : List Field) : fs.length ≤ (fs.flatMap writeField).length := by
  induction fs with
  | nil => simp
  | cons f fs ih =>
    have hf := List.length_pos_iff.mpr (writeField_ne_nil f)
    simp only [List.length_cons, List.flatMap_cons, List.length_append]
    omega

lemma fields_flatMap (fs : List Field) (hfit : ∀ f ∈ fs, f.Fits) :
    fields (fs.flatMap writeField) = some fs :=
  readFields_flatMap fs _ hfit (length_le_flatMap fs)

end KimRpc.Library.ProtoWire
