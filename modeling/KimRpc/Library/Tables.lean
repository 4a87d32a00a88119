import Mathlib.Data.List.AList

/-! Selecting entries of a finite table, and splitting a table into two parts
that have no key in common. -/

namespace KimRpc.Library.Tables

variable {α : Type*} {β : Type*} [DecidableEq α]

abbrev Table (α β : Type*) := AList (fun _ : α => β)

def select (m : Table α β) (p : β → Bool) : Table α β :=
  ⟨m.entries.filter (fun e => p e.2), m.nodupKeys.sublist List.filter_sublist⟩

lemma mem_lookup_entries {m : Table α β} {a : α} {b : β} :
    m.lookup a = some b ↔ (⟨a, b⟩ : Sigma (fun _ : α => β)) ∈ m.entries :=
  AList.mem_lookup_iff

lemma lookup_select {m : Table α β} {p : β → Bool} {a : α} {b : β} :
    (select m p).lookup a = some b ↔ m.lookup a = some b ∧ p b = true := by
  simp only [mem_lookup_entries, select, List.mem_filter]

lemma eq_empty_of_lookup {m : Table α β} (h : ∀ a, m.lookup a = none) : m = ∅ := by
  apply AList.ext
  rw [AList.empty_entries, List.eq_nil_iff_forall_not_mem]
  rintro ⟨a, b⟩ hb
  have hl := mem_lookup_entries.mpr hb
  rw [h a] at hl
  cases hl

structure Splits (m taken rest : Table α β) : Prop where
  entry : ∀ a b, m.lookup a = some b ↔ taken.lookup a = some b ∨ rest.lookup a = some b
  apart : ∀ a b b', taken.lookup a = some b → rest.lookup a ≠ some b'

lemma Splits.taken {m taken rest : Table α β} (h : Splits m taken rest) {a : α} {b : β}
    (ht : taken.lookup a = some b) : m.lookup a = some b := (h.entry a b).mpr (.inl ht)

lemma Splits.rest {m taken rest : Table α β} (h : Splits m taken rest) {a : α} {b : β}
    (hr : rest.lookup a = some b) : m.lookup a = some b := (h.entry a b).mpr (.inr hr)

lemma splits_all (m : Table α β) : Splits m m ∅ where
  entry a b := by simp [AList.lookup_empty]
  apart a b b' _ := by simp [AList.lookup_empty]

lemma splits_select (m : Table α β) (p : β → Bool) :
    Splits m (select m p) (select m (fun b => !p b)) where
  entry a b := by
    simp only [lookup_select]
    cases p b <;> simp
  apart a b b' ht hr := by
    rw [lookup_select] at ht hr
    have hb : b = b' := Option.some.inj (ht.1.symm.trans hr.1)
    simp [← hb, ht.2] at hr

lemma splits_erase {m : Table α β} {a : α} {b : β} (h : m.lookup a = some b) :
    Splits m (AList.singleton a b) (m.erase a) where
  entry c d := by
    by_cases hc : c = a
    · subst hc
      simp [h, AList.lookup_erase, mem_lookup_entries (m := AList.singleton c b), eq_comm]
    · simp [AList.lookup_erase_ne hc, mem_lookup_entries (m := AList.singleton a b), hc]
  apart c d d' ht hr := by
    by_cases hc : c = a
    · subst hc
      simp [AList.lookup_erase] at hr
    · simp [mem_lookup_entries, hc] at ht

end KimRpc.Library.Tables
