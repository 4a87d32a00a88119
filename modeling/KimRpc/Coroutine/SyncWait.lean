import KimRpc.Coroutine.Simulation

/-! `sync_wait` comes to what its task comes to in direct style, and it does come to an end
when the kernel completes what it is given. -/

namespace KimRpc.Coroutine

open Library Library.Runs

variable {ι : Type} [DecidableEq ι] {T : ι → Type} {E : Type} {i w : ι}

/-- The thread takes steps again and again, and every SQE of a coroutine gets its completion. -/
structure Fair (σ : ℕ → State T E i) (α : ℕ → Action) : Prop where
  thread : ∀ k, ∃ j ≥ k, ∃ n, α j = .thread n
  served : ∀ k h, some h ∈ (σ k).ring.unserved → ∃ j ≥ k, ∃ res, α j = .complete (some h) res

section fair

variable {prog : Prog T E i} {entries k : ℕ} {σ : ℕ → State T E i} {α : ℕ → Action}
    {ctx : Ctx T E w i}

lemma moves_next {ph : Phase T E i} (hpath : Path (step entries) Any σ α) (hfair : Fair σ α)
    (hinv : Inv prog (σ k) ph)
    (hph : ∀ w ctx k, ph ≠ @Phase.suspended _ _ _ _ w ctx k) :
    ∃ j ≥ k, ∃ ph', Inv prog (σ (j + 1)) ph' ∧ Move (σ j) (σ (j + 1)) ph ph' ∧
      toResume (σ j) = toResume (σ k) ∧ toReturn (σ j) = toReturn (σ k) := by
  have hstay : ∀ (u : State T E i) (a : Action) (v : State T E i),
      (Inv prog u ph ∧ toResume u = toResume (σ k) ∧ toReturn u = toReturn (σ k)) →
      ¬ (∃ n, a = .thread n) →
      step entries u a = some v → Inv prog v ph ∧ toResume v = toResume (σ k) ∧
      toReturn v = toReturn (σ k) := by
    intro u a v hu hother hs
    cases a with
    | thread n => exact absurd ⟨n, rfl⟩ hother
    | complete a res =>
      obtain ⟨ph', hinv', hposting⟩ := complete_posting hu.1 hs
      cases hposting with
      | other hresume hreturn => exact ⟨hinv', hresume.trans hu.2.1, hreturn.trans hu.2.2⟩
      | own => exact absurd rfl (hph _ _ _)
  obtain ⟨j, hj, ⟨hinv, hresume, hreturn⟩, n, hn⟩ :=
    hpath.until ⟨hinv, rfl, rfl⟩ (hfair.thread k) hstay
  obtain ⟨t, ht, ph', hinv', hmove⟩ := thread_moves hinv entries n
  have hnext := hpath.next j
  rw [hn] at hnext
  cases ht.symm.trans hnext
  exact ⟨j, hj, ph', hinv', hmove, hresume, hreturn⟩

lemma posted_next {k' : ℤ → Prog T E w} (hpath : Path (step entries) Any σ α) (hfair : Fair σ α)
    (hinv : Inv prog (σ k) (.suspended ctx k')) : ∃ j ≥ k, ∃ res, Inv prog (σ j)
    (.posted ctx (k' res)) := by
  obtain ⟨_, _, _, hat, -⟩ := id hinv
  cases hat with
  | @suspended _ h caller _ _ _ _ _ _ _ _ _ hslot =>
    have hmem : some h ∈ (σ k).ring.unserved := by
      obtain ⟨a, ha, rfl⟩ :=
        List.mem_filterMap.mp (hslot.unserved.mem_iff.mpr (List.mem_singleton_self h))
      exact ha
    have hstay : ∀ (u : State T E i) (a : Action) (v : State T E i),
        Inv prog u (.suspended ctx k') →
        ¬ (∃ h res, a = .complete (some h) res) → step entries u a = some v →
        Inv prog v (.suspended ctx k') := by
      intro u a v hu hother hs
      cases a with
      | thread n =>
        obtain ⟨t, ht, ph', hinv', hmove⟩ := thread_moves hu entries n
        cases ht.symm.trans hs
        cases hmove with
        | idle => exact hinv'
      | complete a res =>
        obtain ⟨ph', hinv', hposting⟩ := complete_posting hu hs
        cases hposting with
        | other => exact hinv'
        | own => exact absurd ⟨_, _, rfl⟩ hother
    obtain ⟨j, hj, res, hres⟩ := hfair.served k h hmem
    obtain ⟨j, hj, hinv, h, res, hres⟩ := hpath.until hinv ⟨j, hj, h, res, hres⟩ hstay
    have hnext := hpath.next j
    rw [hres] at hnext
    obtain ⟨ph', hinv', hposting⟩ := complete_posting hinv hnext
    cases hposting with
    | own => exact ⟨j + 1, by omega, res, hinv'⟩

lemma resumed_next {p : Prog T E w} (hpath : Path (step entries) Any σ α) (hfair : Fair σ α)
    (hinv : Inv prog (σ k) (.posted ctx p)) : ∃ j ≥ k, Inv prog (σ j) (.resumed ctx p) := by
  induction hm : toResume (σ k) using Nat.strong_induction_on generalizing k with
  | _ m ih =>
    obtain ⟨j, hj, ph, hinv', hmove, hresume, -⟩ := moves_next hpath hfair hinv nofun
    cases hmove with
    | search hlt =>
      obtain ⟨l, hl, hresumed⟩ := ih _ (by omega) hinv' rfl
      exact ⟨l, by omega, hresumed⟩
    | resume => exact ⟨j + 1, by omega, hinv'⟩

lemma returned_next {o : Except E (T i)} (hpath : Path (step entries) Any σ α) (hfair : Fair σ α)
    (hinv : Inv prog (σ k) (.finished o)) : ∃ j, Inv prog (σ j) (.returned o) := by
  induction hm : toReturn (σ k) using Nat.strong_induction_on generalizing k with
  | _ m ih =>
    obtain ⟨j, -, ph, hinv', hmove, -, hreturn⟩ := moves_next hpath hfair hinv nofun
    cases hmove with
    | turn hlt => exact ih _ (by omega) hinv' rfl
    | giveBack => exact ⟨j + 1, hinv'⟩

lemma running_next {p : Prog T E w} (hpath : Path (step entries) Any σ α) (hfair : Fair σ α)
    (hinv : Inv prog (σ k) (.running ctx p)) :
    ∃ j ph, Inv prog (σ j) ph ∧ (Prog.Next ph.rest (ctx.plug p) ∨ ∃ o, ph = .finished o) := by
  induction p generalizing k with
  | coReturn value =>
    obtain ⟨j, -, ph, hinv', hmove, -⟩ := moves_next hpath hfair hinv nofun
    cases hmove with
    | handBack hp =>
      refine ⟨j + 1, _, hinv', .inl ?_⟩
      rw [hp]
      exact Ctx.next_plug _ (.outcome _)
    | finish => exact ⟨j + 1, _, hinv', .inr ⟨_, rfl⟩⟩
  | throw e =>
    obtain ⟨j, -, ph, hinv', hmove, -⟩ := moves_next hpath hfair hinv nofun
    cases hmove with
    | handBack hp =>
      refine ⟨j + 1, _, hinv', .inl ?_⟩
      rw [hp]
      exact Ctx.next_plug _ (.outcome _)
    | finish => exact ⟨j + 1, _, hinv', .inr ⟨_, rfl⟩⟩
  | awaitIo k' ih =>
    obtain ⟨j, -, ph, hinv', hmove, -⟩ := moves_next hpath hfair hinv nofun
    cases hmove with
    | wait =>
      obtain ⟨l, -, res, hposted⟩ := posted_next hpath hfair hinv'
      exact ⟨l, _, hposted, .inl (ctx.next_plug (.result res))⟩
    | refused => exact ⟨j + 1, _, hinv', .inl (ctx.next_plug (.result _))⟩
    | handBack hp => exact absurd hp (Prog.awaitIo_ne_ofOutcome _ _)
    | finish hp => exact absurd hp (Prog.awaitIo_ne_ofOutcome _ _)
  | awaitTask sub k' ihsub ihk =>
    obtain ⟨j, -, ph, hinv', hmove, -⟩ := moves_next hpath hfair hinv nofun
    cases hmove with
    | call => exact ihsub hinv'
    | handBack hp => exact absurd hp (Prog.awaitTask_ne_ofOutcome _ _ _)
    | finish hp => exact absurd hp (Prog.awaitTask_ne_ofOutcome _ _ _)

lemma returned_of_acc {q : Prog T E i} (hpath : Path (step entries) Any σ α) (hfair : Fair σ α)
    (hacc : Acc Prog.Next q) : ∀ k (ph : Phase T E i), Inv prog (σ k) ph → ph.rest = q →
    ∃ j o, Inv prog (σ j) (.returned o) := by
  induction hacc with
  | intro q _ ih =>
    have hrunning : ∀ k w (ctx : Ctx T E w i) p, Inv prog (σ k) (.running ctx p) → ctx.plug p = q →
        ∃ j o, Inv prog (σ j) (.returned o) := by
      rintro k w ctx p hinv rfl
      obtain ⟨j, ph, hinv', hnext | ⟨o, rfl⟩⟩ := running_next hpath hfair hinv
      · exact ih _ hnext j ph hinv' rfl
      · obtain ⟨l, hl⟩ := returned_next hpath hfair hinv'
        exact ⟨l, o, hl⟩
    have hresumed : ∀ k w (ctx : Ctx T E w i) p, Inv prog (σ k) (.resumed ctx p) → ctx.plug p = q →
        ∃ j o, Inv prog (σ j) (.returned o) := by
      intro k w ctx p hinv hq
      obtain ⟨j, -, ph, hinv', hmove, -⟩ := moves_next hpath hfair hinv nofun
      cases hmove with
      | goOn => exact hrunning (j + 1) w ctx p hinv' hq
    intro k ph hinv hq
    cases ph with
    | running ctx p => exact hrunning k _ ctx p hinv hq
    | suspended ctx k' =>
      obtain ⟨j, -, res, hposted⟩ := posted_next hpath hfair hinv
      refine ih _ ?_ j _ hposted rfl
      rw [← hq]
      exact ctx.next_plug (.result res)
    | posted ctx p =>
      obtain ⟨j, -, hwoken⟩ := resumed_next hpath hfair hinv
      exact hresumed j _ ctx p hwoken hq
    | resumed ctx p => exact hresumed k _ ctx p hinv hq
    | handedBack ctx p =>
      obtain ⟨j, -, ph, hinv', hmove, -⟩ := moves_next hpath hfair hinv nofun
      cases hmove with
      | takeOutcome => exact hrunning (j + 1) _ ctx p hinv' hq
    | finished o =>
      obtain ⟨j, hj⟩ := returned_next hpath hfair hinv
      exact ⟨j, o, hj⟩
    | returned o => exact ⟨k, o, hinv⟩

end fair

/-- Direct style in every state: the thread has a next step, which resumes no coroutine that
is gone; each resume is for the next completion and each completion for the next SQE prepared;
and each coroutine that hands control back does so once, to the one that awaits it. When
`sync_wait` returns, the outcome is that of the program under the results so far, and no
resume and no awaited coroutine is left out. -/
structure Direct (entries : ℕ) (prog : Prog T E i) (s : State T E i) : Prop where
  defined : ∀ n, ∃ t, s.thread entries n = some t
  resumed : s.log.resumed <+: s.log.posted
  posted : s.log.posted.map Prod.fst <+: s.log.prepared
  handedBack : s.log.handedBack.Subperm s.log.awaited
  once : (s.log.awaited.map Prod.fst).Nodup
  outcome : ∀ o, s.control = .returned o → prog.eval s.log.results = some (o, [])
  settled : ∀ o, s.control = .returned o → s.log.resumed = s.log.posted ∧
      s.log.posted.map Prod.fst = s.log.prepared ∧
    s.log.handedBack.Perm s.log.awaited

lemma Inv.direct {prog : Prog T E i} {s : State T E i} {ph : Phase T E i} (hinv : Inv prog s ph)
    (entries : ℕ) :
    Direct entries prog s := by
  have hdefined : ∀ n, ∃ t, s.thread entries n = some t := by
    intro n
    obtain ⟨t, ht, -⟩ := thread_moves hinv entries n
    exact ⟨t, ht⟩
  obtain ⟨unserved, ready, awaits, hat, hl⟩ := hinv
  have hreturned : ∀ o, s.control = .returned o → ph = .returned o ∧ unserved = [] ∧ ready = [] ∧
      awaits = [] := by
    intro o ho
    cases hat with
    | running hc => cases hc.symm.trans ho
    | suspended hc => cases hc.symm.trans ho
    | posted hc => cases hc.symm.trans ho
    | resumed hc => cases hc.symm.trans ho
    | handedBack hc => cases hc.symm.trans ho
    | finished hc => cases hc.symm.trans ho
    | returned hc =>
      cases hc.symm.trans ho
      exact ⟨rfl, rfl, rfl, rfl⟩
  refine ⟨hdefined, ⟨ready, hl.posted.symm⟩, ⟨unserved, hl.prepared.symm⟩, ?_, hl.nodup, ?_, ?_⟩
  · exact (List.sublist_append_right awaits _).subperm.trans hl.awaited.symm.subperm
  · intro o ho
    obtain ⟨rfl, -⟩ := hreturned o ho
    have hdirect := hl.direct []
    rw [List.append_nil] at hdirect
    exact hdirect.trans (Prog.eval_ofOutcome o [])
  · intro o ho
    obtain ⟨-, rfl, rfl, rfl⟩ := hreturned o ho
    refine ⟨?_, ?_, hl.awaited.symm⟩
    · exact (hl.posted.trans (List.append_nil _)).symm
    · exact (hl.prepared.trans (List.append_nil _)).symm

abbrev IntTask : Type := Prog (fun _ : Unit => ℤ) ℤ ()

def recvTask : IntTask := .awaitIo fun r => if r < 0 then .throw r else .coReturn r

def relayTask : IntTask := .uncaught recvTask fun value => .coReturn value

def retryTask : IntTask :=
  .awaitTask relayTask fun
    | .ok value => .coReturn value
    | .error e => .awaitIo fun r => .coReturn (e + r)

example : retryTask.eval [-104, 4] = some (.ok (-100), []) := by
  rfl

def retryRing : IoRing (Option ℕ) := { cq := [(none, 5)] }

def retryRun : List Action :=
  [.thread 0, .thread 0, .thread 0, .thread 1, .complete (some 2) (-104), .thread 0, .thread 0,
    .thread 0, .thread 0,
    .thread 0, .thread 0, .thread 0, .thread 0, .thread 0, .thread 1, .complete (some 0) 4]

def retryAction (k : ℕ) : Action := retryRun.getD k (.thread 0)

def retryState : ℕ → State (fun _ : Unit => ℤ) ℤ ()
  | 0 => start retryTask retryRing
  | k + 1 => ((step 8 (retryState k) (retryAction k)).getD (retryState k))

lemma retryAction_end (m : ℕ) : retryAction (21 + m) = .thread 0 := by
  have hlen : retryRun.length ≤ 21 + m := Nat.le_trans (by decide) (Nat.le_add_right 21 m)
  rw [retryAction, List.getD_eq_getElem?_getD, List.getElem?_eq_none hlen, Option.getD_none]

lemma retryState_end (m : ℕ) :
    step 8 (retryState (21 + m)) (.thread 0) = some (retryState (21 + m)) ∧
    retryState (21 + m) = retryState 21 := by
  have hcontrol : (retryState 21).control = .returned (.ok (-100)) := rfl
  have hstay : step 8 (retryState 21) (.thread 0) = some (retryState 21) := by
    rw [step, State.thread, hcontrol]
  induction m with
  | zero => exact ⟨hstay, rfl⟩
  | succ m ih =>
    have hnext : retryState (21 + (m + 1)) = retryState 21 := by
      rw [← Nat.add_assoc, retryState, retryAction_end, ih.1, Option.getD_some, ih.2]
    rw [hnext]
    exact ⟨hstay, rfl⟩

lemma retry_path : Path (step 8) Any retryState retryAction := by
  refine ⟨fun _ => trivial, ?_⟩
  have hsome : ∀ k < 21, (step 8 (retryState k) (retryAction k)).isSome = true := by
    decide +kernel
  intro k
  obtain hk | ⟨m, rfl⟩ : k < 21 ∨ ∃ m, k = 21 + m :=
    (Nat.lt_or_ge k 21).imp_right Nat.exists_eq_add_of_le
  · obtain ⟨t, ht⟩ := Option.isSome_iff_exists.mp (hsome k hk)
    rw [retryState, ht, Option.getD_some]
  · rw [retryState, retryAction_end, (retryState_end m).1, Option.getD_some]

lemma retry_fair : Fair retryState retryAction := by
  refine ⟨?_, ?_⟩
  · intro k
    exact ⟨21 + k, by omega, 0, retryAction_end k⟩
  · have hserved : ∀ k < 21, ∀ a ∈ (retryState k).ring.unserved, ∃ j < 21, k ≤ j ∧
        ∃ res ∈ [-104, 4], retryAction j = .complete a res := by
      decide +kernel
    intro k h hmem
    obtain hk | ⟨m, rfl⟩ : k < 21 ∨ ∃ m, k = 21 + m :=
      (Nat.lt_or_ge k 21).imp_right Nat.exists_eq_add_of_le
    · obtain ⟨j, -, hj, res, -, hres⟩ := hserved k hk _ hmem
      exact ⟨j, hj, res, hres⟩
    · have hnone : (retryState 21).ring.unserved = [] := by
        decide +kernel
      rw [(retryState_end m).2, hnone] at hmem
      cases hmem

end KimRpc.Coroutine
