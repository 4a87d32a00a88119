import Mathlib.Tactic

/-! Replicas of a set that is changed by additions and removals. A replica may
go back in the log and replay it; for each element it then shows the set of
some moment between its last update and the newest one it has applied. -/

namespace KimRpc.Library.Replay

variable {α : Type*}

inductive Update (α : Type*) where
  | add (a : α)
  | remove (a : α)

def Update.key : Update α → α
  | .add a => a
  | .remove a => a

def Update.apply : Update α → Set α → Set α
  | .add a, S => insert a S
  | .remove a, S => S \ {a}

def after (S : Set α) (us : List (Update α)) : Set α := us.foldl (fun T u => u.apply T) S

variable {S T T' D : Set α} {us : List (Update α)} {u : Update α} {a : α}

lemma after_snoc : after S (us ++ [u]) = u.apply (after S us) := by simp [after]

lemma mem_apply_ne (h : a ≠ u.key) : a ∈ u.apply T ↔ a ∈ T := by
  cases u with
  | add b => exact Set.mem_insert_iff.trans (or_iff_right h)
  | remove b => exact and_iff_left h

lemma mem_apply_key : u.key ∈ u.apply T ↔ u.key ∈ u.apply T' := by
  cases u <;> simp [Update.apply, Update.key]

lemma after_filter [DecidablePred (· ∈ D)] (ha : a ∈ D) :
    a ∈ after S (us.filter (·.key ∈ D)) ↔ a ∈ after S us := by
  induction us using List.reverseRecOn with
  | nil => rfl
  | append_singleton us u ih =>
    rw [List.filter_append, after_snoc]
    by_cases hu : u.key ∈ D
    · rw [List.filter_singleton, decide_eq_true hu, cond_true, after_snoc]
      by_cases hk : a = u.key
      · subst hk
        exact mem_apply_key
      · rw [mem_apply_ne hk, mem_apply_ne hk, ih]
    · have hk : a ≠ u.key := by
        rintro rfl
        exact hu ha
      rw [List.filter_singleton, decide_eq_false hu, cond_false, List.append_nil, mem_apply_ne hk,
        ih]

/-- The replica T shows each element of D as it was after some number of updates. -/
def Lags (D S : Set α) (us : List (Update α)) (last newest : ℕ) (T : Set α) : Prop :=
  ∀ a ∈ D, ∃ n, last ≤ n ∧ n ≤ newest ∧ (a ∈ T ↔ a ∈ after S (us.take n))

variable {i last newest : ℕ}

lemma Lags.start (h : ∀ a ∈ D, a ∈ T ↔ a ∈ S) : Lags D S us 0 0 T := by
  intro a ha
  exact ⟨0, le_rfl, le_rfl, h a ha⟩

lemma Lags.apply (h : Lags D S us last newest T) (hi : i ≤ last) (hu : us[i]? = some u)
    (hT : ∀ a ∈ D, a ∈ T' ↔ a ∈ u.apply T) : Lags D S us (i + 1) (max newest (i + 1)) T' := by
  have htake : us.take (i + 1) = us.take i ++ [u] := by
    rw [List.take_add_one, hu, Option.toList_some]
  intro a ha
  by_cases hk : a = u.key
  · refine ⟨i + 1, le_rfl, le_max_right _ _, ?_⟩
    rw [hT a ha, htake, after_snoc, hk]
    exact mem_apply_key
  · obtain ⟨n, hlast, hnewest, hn⟩ := h a ha
    rw [← mem_apply_ne hk, ← hT a ha] at hn
    rcases Nat.lt_or_ge i n with hlt | hge
    · exact ⟨n, hlt, hnewest.trans (le_max_left _ _), hn⟩
    · obtain rfl : n = i := le_antisymm hge (hi.trans hlast)
      refine ⟨n + 1, le_rfl, le_max_right _ _, ?_⟩
      rw [hn, htake, after_snoc, mem_apply_ne hk]

lemma Lags.exact (h : Lags D S us last last T) (ha : a ∈ D) :
    a ∈ T ↔ a ∈ after S (us.take last) := by
  obtain ⟨n, hlast, hnewest, hn⟩ := h a ha
  obtain rfl : n = last := le_antisymm hnewest hlast
  exact hn

end KimRpc.Library.Replay
