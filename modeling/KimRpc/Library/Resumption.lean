import Mathlib.Tactic

/-! Readers of a growing log that is ordered by a key. A reader takes the log in
segments, each of which starts at the first item from some key on; what is read
stays in order as long as no segment starts above an item still unread. -/

namespace KimRpc.Library.Resumption

variable {α κ : Type*} [LinearOrder κ] (key : α → κ)

def Timely (log read : List α) : Prop :=
  ∀ xs a ys, read = xs ++ a :: ys → a ∈ log ∧ ∀ b ∈ log, key b < key a → b ∈ xs

def Complete (log read : List α) (r : κ) : Prop := ∀ b ∈ log, key b < r → b ∈ read

variable {key} {log read new seg rest : List α} {r r' : κ}

lemma timely_nil : Timely key log [] := by
  intro xs a ys h
  simp at h

lemma Timely.mem (h : Timely key log read) {a : α} (ha : a ∈ read) : a ∈ log := by
  obtain ⟨xs, ys, he⟩ := List.append_of_mem ha
  exact (h xs a ys he).1

lemma Timely.grow (h : Timely key log read) (hnew : ∀ a ∈ log, ∀ b ∈ new, key a ≤ key b) :
    Timely key (log ++ new) read := by
  intro xs a ys he
  obtain ⟨ha, hbelow⟩ := h xs a ys he
  refine ⟨List.mem_append_left _ ha, fun b hb hlt => ?_⟩
  rcases List.mem_append.mp hb with hb | hb
  · exact hbelow b hb hlt
  · exact absurd hlt (not_lt.mpr (hnew a ha b hb))

lemma Complete.grow (h : Complete key log read r) (hnew : ∀ b ∈ new, r ≤ key b) :
    Complete key (log ++ new) read r := by
  intro b hb hlt
  rcases List.mem_append.mp hb with hb | hb
  · exact h b hb hlt
  · exact absurd hlt (not_lt.mpr (hnew b hb))

lemma split_append {xs ys : List α} {a : α} (h : read ++ seg = xs ++ a :: ys) :
    (∃ as, xs = read ++ as ∧ seg = as ++ a :: ys) ∨ ∃ bs, read = xs ++ a :: bs := by
  rcases List.append_eq_append_iff.mp h with ⟨as, hxs, hseg⟩ | ⟨bs, hread, hbs⟩
  · exact .inl ⟨as, hxs, hseg⟩
  · cases bs with
    | nil => exact .inl ⟨[], by simpa using hread.symm, hbs.symm⟩
    | cons c bs =>
      obtain ⟨rfl, -⟩ := List.cons.inj hbs
      exact .inr ⟨bs, hread⟩

lemma Timely.segment (h : Timely key log read) (hlog : log.Pairwise (key · ≤ key ·))
    (hc : Complete key log read r)
    (hs : seg <+: log.filter (r ≤ key ·)) : Timely key log (read ++ seg) := by
  obtain ⟨rest, hrest⟩ := hs
  have hsorted := hlog.filter (r ≤ key ·)
  intro xs a ys he
  rcases split_append he with ⟨as, rfl, hseg⟩ | ⟨bs, rfl⟩
  · rw [← hrest, hseg, List.append_assoc] at hsorted
    have hmem (c : α) : c ∈ as ++ (a :: ys ++ rest) ↔ c ∈ log ∧ r ≤ key c := by
      rw [← List.append_assoc, ← hseg, hrest, List.mem_filter, decide_eq_true_iff]
    refine ⟨((hmem a).mp (by simp)).1, fun b hb hlt => List.mem_append.mpr ?_⟩
    rcases lt_or_ge (key b) r with hbr | hrb
    · exact .inl (hc b hb hbr)
    · rcases List.mem_append.mp ((hmem b).mpr ⟨hb, hrb⟩) with hb | hb
      · exact .inr hb
      · obtain ⟨-, hcons, -⟩ := List.pairwise_append.mp hsorted
        rcases List.mem_cons.mp hb with rfl | hb
        · exact absurd hlt (lt_irrefl _)
        · exact absurd hlt (not_lt.mpr ((List.pairwise_cons.mp hcons).1 b hb))
  · exact h xs a bs rfl

lemma Complete.segment (h : Complete key log read r) (hs : log.filter (r ≤ key ·) = seg ++ rest)
    (hrest : ∀ b ∈ rest, r' ≤ key b) : Complete key log (read ++ seg) r' := by
  intro b hb hlt
  rw [List.mem_append]
  rcases lt_or_ge (key b) r with hbr | hrb
  · exact .inl (h b hb hbr)
  · have hmem : b ∈ seg ++ rest := by
      rw [← hs, List.mem_filter]
      exact ⟨hb, decide_eq_true hrb⟩
    rcases List.mem_append.mp hmem with hseg | hseg
    · exact .inr hseg
    · exact absurd hlt (not_lt.mpr (hrest b hseg))

end KimRpc.Library.Resumption
