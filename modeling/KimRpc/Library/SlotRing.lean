import Mathlib.Tactic

/-! Rings of slots between two threads. The producer writes slots ahead of the tail and then
moves the tail over them; the consumer takes the slot at the head. The counters run freely and
wrap at sixteen bits, and a mask gives the slot. -/

namespace KimRpc.Library

structure SlotRing (β : Type*) where
  slots : ℕ → β
  head : UInt16 := 0
  tail : UInt16 := 0

namespace SlotRing

variable {β : Type*}

def mask (entries : ℕ) : ℕ := entries - 1

def add (r : SlotRing β) (b : β) (mask offset : ℕ) : SlotRing β :=
  { r with slots := Function.update r.slots ((r.tail.toNat + offset) &&& mask) b }

def advance (r : SlotRing β) (count : ℕ) : SlotRing β :=
  { r with tail := r.tail + UInt16.ofNat count }

def take (r : SlotRing β) (mask : ℕ) : Option (β × SlotRing β) :=
  if r.head = r.tail then none else some (r.slots (r.head.toNat &&& mask), { r with
    head := r.head + 1 })

/-- The counters as they would be without a wrap, the elements between them, and those that were
written ahead of the tail. -/
structure Stands (k : ℕ) (r : SlotRing β) (h : ℕ) (bs ahead : List β) : Prop where
  head : r.head = UInt16.ofNat h
  tail : r.tail = UInt16.ofNat (h + bs.length)
  fits : bs.length + ahead.length ≤ 2 ^ k
  slots : ∀ i (hi : i < (bs ++ ahead).length), r.slots ((h + i) % 2 ^ k) = (bs ++ ahead)[i]

def Holds (k : ℕ) (r : SlotRing β) (bs : List β) : Prop := ∃ h, r.Stands k h bs []

variable {k h : ℕ} {r : SlotRing β} {b : β} {bs ahead : List β}

lemma slot_eq (hk : k ≤ 16) (n offset : ℕ) :
    ((UInt16.ofNat n).toNat + offset) &&& mask (2 ^ k) = (n + offset) % 2 ^ k := by
  have hdvd : 2 ^ k ∣ 2 ^ 16 := Nat.pow_dvd_pow 2 hk
  rw [mask, Nat.and_two_pow_sub_one_eq_mod, UInt16.toNat_ofNat', Nat.add_mod,
    Nat.mod_mod_of_dvd _ hdvd, ← Nat.add_mod]

lemma mod_pow_injective {i j : ℕ} (hi : i < 2 ^ k) (hj : j < 2 ^ k)
    (heq : (h + i) % 2 ^ k = (h + j) % 2 ^ k) : i = j := by
  have hmod : i ≡ j [MOD 2 ^ k] := Nat.ModEq.add_left_cancel' h heq
  exact Nat.ModEq.eq_of_lt_of_lt hmod hi hj

lemma Stands.add (hs : r.Stands k h bs ahead) (hk : k ≤ 16)
    (hfree : bs.length + ahead.length < 2 ^ k) :
    (r.add b (mask (2 ^ k)) ahead.length).Stands k h bs (ahead ++ [b]) := by
  have hslot : (r.tail.toNat + ahead.length) &&& mask (2 ^ k) = (h + (bs ++ ahead).length) % 2 ^
      k := by
    rw [hs.tail, slot_eq hk, List.length_append, Nat.add_assoc]
  refine ⟨hs.head, hs.tail, by simp; omega, fun i hi => ?_⟩
  simp only [SlotRing.add, hslot, Function.update_apply]
  simp only [← List.append_assoc, List.length_append, List.length_singleton] at hi ⊢
  by_cases hlast : i = bs.length + ahead.length
  · simp [hlast]
  · have hold : i < (bs ++ ahead).length := by
      rw [List.length_append]
      omega
    rw [if_neg, List.getElem_append_left hold]
    · exact hs.slots i hold
    · intro heq
      exact hlast (mod_pow_injective (by omega) hfree heq)

lemma Stands.advance (hs : r.Stands k h bs ahead) :
    (r.advance ahead.length).Stands k h (bs ++ ahead) [] where
  head := hs.head
  tail := by
    rw [SlotRing.advance, hs.tail, List.length_append, ← UInt16.ofNat_add, Nat.add_assoc]
  fits := by
    have hfits := hs.fits
    simpa using hfits
  slots i hi := by
    simp only [List.append_nil]
    exact hs.slots i (by simpa using hi)

lemma Holds.put (hr : r.Holds k bs) (hk : k ≤ 16) (hfree : bs.length < 2 ^ k) :
    ((r.add b (mask (2 ^ k)) 0).advance 1).Holds k (bs ++ [b]) := by
  obtain ⟨h, hs⟩ := hr
  have hadded := hs.add (b := b) hk (by simpa using hfree)
  exact ⟨h, hadded.advance⟩

lemma Holds.take_nil (hr : r.Holds k []) : r.take (mask (2 ^ k)) = none := by
  obtain ⟨h, hs⟩ := hr
  rw [take, if_pos (hs.head.trans hs.tail.symm)]

lemma Holds.take_cons (hr : r.Holds k (b :: bs)) (hk : k < 16) :
    ∃ r', r.take (mask (2 ^ k)) = some (b, r') ∧ r'.Holds k bs := by
  obtain ⟨h, hs⟩ := hr
  have hlt : 2 ^ k < 2 ^ 16 := Nat.pow_lt_pow_right (by norm_num) hk
  have hfits := hs.fits
  simp only [List.length_cons, List.length_nil, Nat.add_zero] at hfits
  have hne : r.head ≠ r.tail := by
    rw [hs.head, hs.tail]
    intro heq
    have hval := congrArg UInt16.toNat heq
    simp only [UInt16.toNat_ofNat', List.length_cons] at hval
    omega
  have hslot : r.slots (r.head.toNat &&& mask (2 ^ k)) = b := by
    have hfirst := slot_eq (Nat.le_of_lt hk) h 0
    rw [Nat.add_zero] at hfirst
    rw [hs.head, hfirst]
    exact hs.slots 0 (by simp)
  refine ⟨{ r with
    head := r.head + 1 }, by rw [take, if_neg hne, hslot], h + 1, ?_, ?_, by
      simp; omega, fun i hi => ?_⟩
  · rw [hs.head, UInt16.ofNat_add]
    rfl
  · rw [hs.tail, List.length_cons]
    congr 1
    omega
  · have hold := hs.slots (i + 1) (by simpa using hi)
    rw [show h + 1 + i = h + (i + 1) by omega, hold]
    simp

lemma Stands.fill (hs : r.Stands k h bs []) (hk : k ≤ 16) {n : ℕ} (hn : bs.length + n ≤ 2 ^ k)
    (f : ℕ → β) :
    ((List.range n).foldl (fun r i => r.add (f i) (mask (2 ^ k)) i) r).Stands k h bs
    ((List.range n).map f) := by
  induction n with
  | zero => exact hs
  | succ n ih =>
    have hprev := ih (by omega)
    have hadded := hprev.add (b := f n) hk (by simp; omega)
    rw [List.length_map, List.length_range] at hadded
    rw [List.range_succ, List.foldl_append, List.map_append]
    exact hadded

end SlotRing

end KimRpc.Library
