import Mathlib.Tactic

/-! Runs of a partial step function under a guard on the steps, and the rule
that an invariant of each step holds in every state of a run. -/

namespace KimRpc.Library.Runs

variable {S A : Type*}

inductive Run (step : S → A → Option S) (ok : S → A → Prop) (s : S) : List A → S → Prop
  | nil : Run step ok s [] s
  | snoc {as : List A} {t u : S} {a : A} : Run step ok s as t → ok t a → step t a = some u →
      Run step ok s (as ++ [a]) u

def Any (_ : S) (_ : A) : Prop := True

instance (s : S) (a : A) : Decidable (Any s a) := .isTrue trivial

def exec (step : S → A → Option S) : S → List A → Option S
  | s, [] => some s
  | s, a :: as => (step s a).bind (fun t => exec step t as)

def Allowed (step : S → A → Option S) (ok : S → A → Prop) : S → List A → Prop
  | _, [] => True
  | s, a :: as => ok s a ∧ ∀ t ∈ step s a, Allowed step ok t as

instance Allowed.decidable (step : S → A → Option S) (ok : S → A → Prop)
    [∀ s a, Decidable (ok s a)] :
    ∀ s as, Decidable (Allowed step ok s as)
  | _, [] => .isTrue trivial
  | s, a :: as =>
    have : ∀ t, Decidable (Allowed step ok t as) := fun t => Allowed.decidable step ok t as
    inferInstanceAs (Decidable (ok s a ∧ ∀ t ∈ step s a, Allowed step ok t as))

variable {step : S → A → Option S} {ok : S → A → Prop} {s t : S} {as : List A}

lemma Run.cons {u : S} {a : A} (hok : ok s a) (hs : step s a = some t) (h : Run step ok t as u) :
    Run step ok s (a :: as) u := by
  induction h with
  | nil => exact @Run.snoc _ _ _ _ _ [] _ _ _ .nil hok hs
  | @snoc as v w b _ hb hw ih => exact @Run.snoc _ _ _ _ _ (a :: as) _ _ _ ih hb hw

lemma Run.of_exec (h : exec step s as = some t) (hok : Allowed step ok s as) :
    Run step ok s as t := by
  induction as generalizing s with
  | nil =>
    cases Option.some.inj h
    exact .nil
  | cons a as ih =>
    cases hs : step s a with
    | none => simp [exec, hs] at h
    | some u =>
      have hu : exec step u as = some t := by simpa [exec, hs] using h
      exact .cons hok.1 hs (ih hu (hok.2 u (by simp [hs])))

lemma exec_append (as bs : List A) : exec step s (as ++ bs) =
    (exec step s as).bind (fun t => exec step t bs) := by
  induction as generalizing s with
  | nil => rfl
  | cons a as ih =>
    rw [List.cons_append, exec, exec, Option.bind_assoc]
    exact congrArg _ (funext fun t => ih)

lemma exec_any {p : S → Bool} (h : (exec step s as).any p = true) : ∃ t, exec step s as = some t ∧
    p t = true := by
  cases he : exec step s as with
  | none => simp [he] at h
  | some t => exact ⟨t, rfl, by simpa [he] using h⟩

lemma Run.weaken {ok' : S → A → Prop} (h : Run step ok s as t) (hw : ∀ u a, ok u a → ok' u a) :
    Run step ok' s as t := by
  induction h with
  | nil => exact .nil
  | snoc _ hok hs ih => exact .snoc ih (hw _ _ hok) hs

lemma Run.any (h : Run step ok s as t) : Run step Any s as t := h.weaken (fun _ _ _ => trivial)

lemma Run.invariant {Inv : S → Prop} (h : Run step ok s as t) (hinit : Inv s)
    (hstep : ∀ u a v, Inv u → ok u a → step u a = some v → Inv v) : Inv t := by
  induction h with
  | nil => exact hinit
  | snoc _ hok hs ih => exact hstep _ _ _ ih hok hs

lemma Run.invariant_with {I K : S → Prop} (h : Run step ok s as t) (hinit : I s)
    (hK : ∀ bs u, Run step ok s bs u → K u)
    (hstep : ∀ u a v, K u → K v → I u → ok u a → step u a = some v → I v) : I t := by
  induction h with
  | nil => exact hinit
  | snoc hr hok hs ih => exact hstep _ _ _ (hK _ _ hr) (hK _ _ (.snoc hr hok hs)) ih hok hs

lemma Run.append {bs : List A} {u : S} (h : Run step ok s as t) (h' : Run step ok t bs u) :
    Run step ok s (as ++ bs) u := by
  induction h' with
  | nil =>
    rw [List.append_nil]
    exact h
  | snoc _ hok hs ih =>
    rw [← List.append_assoc]
    exact .snoc ih hok hs

lemma Run.project {T B : Type*} {stepT : T → B → Option T} {okT : T → B → Prop} (π : S → T)
    (h : Run step ok s as t)
    (hstep : ∀ u a v, ok u a → step u a = some v → π v = π u ∨ ∃ b, okT (π u) b ∧
      stepT (π u) b = some (π v)) :
    ∃ bs, Run stepT okT (π s) bs (π t) := by
  induction h with
  | nil => exact ⟨[], .nil⟩
  | @snoc as u v a _ hok hs ih =>
    obtain ⟨bs, hr⟩ := ih
    rcases hstep u a v hok hs with hsame | ⟨b, hokT, hsT⟩
    · exact ⟨bs, hsame ▸ hr⟩
    · exact ⟨bs ++ [b], .snoc hr hokT hsT⟩

section paths

structure Path (step : S → A → Option S) (ok : S → A → Prop) (σ : ℕ → S) (α : ℕ → A) : Prop where
  allowed : ∀ k, ok (σ k) (α k)
  next : ∀ k, step (σ k) (α k) = some (σ (k + 1))

variable {σ : ℕ → S} {α : ℕ → A}

lemma Path.run (h : Path step ok σ α) (k : ℕ) : Run step ok (σ 0) ((List.range k).map α) (σ k) := by
  induction k with
  | zero => exact .nil
  | succ k ih =>
    rw [List.range_succ, List.map_append]
    exact .snoc ih (h.allowed k) (h.next k)

/-- A run whose end two steps leave and reach again goes on for ever. -/
lemma exists_path {u v : S} {a b : A} (h : exec step s as = some u) (hok : Allowed step ok s as)
    (ha : ok u a) (hb : ok v b) (hleave : step u a = some v) (hback : step v b = some u) :
    ∃ σ α, σ 0 = s ∧ Path step ok σ α ∧ (∀ k < as.length, as[k]? = some (α k)) ∧
      (∀ k ≤ as.length, exec step s (as.take k) = some (σ k)) ∧ ∀ k ≥ as.length, σ k = u ∨
      σ k = v := by
  induction as generalizing s with
  | nil =>
    cases Option.some.inj h
    refine ⟨fun k => if k % 2 = 0 then u else v, fun k => if k % 2 = 0 then a else b, rfl,
      ⟨fun k => ?_, fun k => ?_⟩,
      fun k hk => absurd hk (Nat.not_lt_zero k), fun k hk => ?_, fun k _ => ?_⟩
    · rcases Nat.mod_two_eq_zero_or_one k with heven | hodd
      · simpa [heven] using ha
      · simpa [hodd] using hb
    · rcases Nat.mod_two_eq_zero_or_one k with heven | hodd
      · simpa [heven, Nat.add_mod] using hleave
      · simpa [hodd, Nat.add_mod] using hback
    · rw [Nat.le_zero.mp hk]
      rfl
    · simp only
      split_ifs
      · exact .inl rfl
      · exact .inr rfl
  | cons c as ih =>
    obtain ⟨t, hc, ht⟩ := Option.bind_eq_some_iff.mp h
    obtain ⟨σ, α, rfl, hpath, hacts, hstates, hend⟩ := ih ht (hok.2 t hc)
    refine ⟨fun k => k.casesOn s σ, fun k => k.casesOn c α, rfl, ⟨fun k => ?_, fun k => ?_⟩,
      fun k hk => ?_,
      fun k hk => ?_, fun k hk => ?_⟩
    · cases k with
      | zero => exact hok.1
      | succ k => exact hpath.allowed k
    · cases k with
      | zero => exact hc
      | succ k => exact hpath.next k
    · cases k with
      | zero => rfl
      | succ k => exact hacts k (Nat.lt_of_succ_lt_succ hk)
    · cases k with
      | zero => rfl
      | succ k =>
        rw [List.take_succ_cons, exec, hc]
        exact hstates k (Nat.le_of_succ_le_succ hk)
    · cases k with
      | zero => exact absurd hk (Nat.not_succ_le_zero _)
      | succ k => exact hend k (Nat.le_of_succ_le_succ hk)

lemma Path.until {P : S → Prop} {event : A → Prop} {k : ℕ} (h : Path step ok σ α) (hk : P (σ k))
    (hevent : ∃ j ≥ k, event (α j)) (hstay : ∀ u a v, P u → ¬ event a → step u a = some v → P v) :
    ∃ j ≥ k, P (σ j) ∧ event (α j) := by
  classical
  obtain ⟨hge, hj⟩ := Nat.find_spec hevent
  have hkept : ∀ n ≥ k, n ≤ Nat.find hevent → P (σ n) := by
    intro n hn
    induction n, hn using Nat.le_induction with
    | base => exact fun _ => hk
    | succ n hn ih =>
      intro hlt
      refine hstay _ (α n) _ (ih (Nat.le_of_lt hlt)) ?_ (h.next n)
      exact fun hnow => Nat.find_min hevent hlt ⟨hn, hnow⟩
  exact ⟨Nat.find hevent, hge, hkept _ hge le_rfl, hj⟩

lemma exists_last {Q : ℕ → Prop} {j k : ℕ} (hle : j ≤ k) (hj : Q j) (hk : ¬ Q k) :
    ∃ i ≥ j, Q i ∧ ¬ Q (i + 1) := by
  induction k, hle using Nat.le_induction with
  | base => exact absurd hj hk
  | succ k hle ih =>
    by_cases hq : Q k
    · exact ⟨k, hle, hq, hk⟩
    · exact ih hq

/-- What cannot last: a measure never grows and is lowered again and again. -/
lemma rank_ends {β : Type*} [Preorder β] [WellFoundedLT β] {P : S → Prop} (m : S → β)
    (hmono : ∀ k, P (σ k) → P (σ (k + 1)) → m (σ (k + 1)) ≤ m (σ k))
    (hlow : (∀ k, P (σ k)) → ∀ k, ∃ j ≥ k, m (σ (j + 1)) < m (σ j)) : ∃ k, ¬ P (σ k) := by
  by_contra hall
  have hP : ∀ k, P (σ k) := fun k => by_contra fun hk => hall ⟨k, hk⟩
  have hanti : Antitone (fun k => m (σ k)) :=
    antitone_nat_of_succ_le (fun k => hmono k (hP k) (hP (k + 1)))
  have hnone : ∀ b k, m (σ k) = b → False := by
    intro b
    induction b using WellFoundedLT.induction with
    | ind b ih =>
      rintro k rfl
      obtain ⟨j, hj, hlt⟩ := hlow hP k
      exact ih _ (hlt.trans_le (hanti hj)) (j + 1) rfl
  exact hnone _ 0 rfl

end paths

section notes

variable {G : Type*} {note : S → A → S → G → G} {x y : S × G}

/-- The system with notes taken of its steps, which they do not influence. -/
def noted (step : S → A → Option S) (note : S → A → S → G → G) (x : S × G) (a : A) :
    Option (S × G) :=
  (step x.1 a).map (fun t => (t, note x.1 a t x.2))

lemma noted_cases {a : A} (h : noted step note x a = some y) :
    step x.1 a = some y.1 ∧ y.2 = note x.1 a y.1 x.2 := by
  simp only [noted, Option.map_eq_some_iff] at h
  obtain ⟨t, ht, rfl⟩ := h
  exact ⟨ht, rfl⟩

lemma Run.noted_invariant {I : S → G → Prop} {g g' : G}
    (h : Run (noted step note) (fun x a => ok x.1 a) (s, g) as (t, g')) (hinit : I s g)
    (hstep : ∀ u a v k, I u k → ok u a → step u a = some v → I v (note u a v k)) : I t g' := by
  have hrun : ∀ (x y : S × G) bs, Run (noted step note) (fun x a => ok x.1 a) x bs y → I x.1 x.2 →
      I y.1 y.2 := by
    intro x y bs hr hx
    induction hr with
    | nil => exact hx
    | snoc _ hok hs ih =>
      obtain ⟨hs, hnote⟩ := noted_cases hs
      rw [hnote]
      exact hstep _ _ _ _ ih hok hs
  exact hrun _ _ _ h hinit

variable (ok) in
lemma Run.unnoted (h : Run (noted step note) (fun x a => ok x.1 a) x as y) :
    Run step ok x.1 as y.1 := by
  induction h with
  | nil => exact .nil
  | snoc _ hok hs ih => exact .snoc ih hok (noted_cases hs).1

end notes

end KimRpc.Library.Runs
