import KimRpc.Server.Journal

/-! The accept and the read of the eventfd. Each is on its way once or is put off, and
then only until the submission queue has room again, so that the loop never waits for nothing. -/

namespace KimRpc.Server.Reactor

open Library.Runs

variable (D : Decoding) (s t u : Reactor) (fd p : ℕ)

structure Adds : Prop where
  sq : ∃ new, t.sq = s.sq ++ new ∧ ∀ e ∈ new, e.ctx ≠ none
  ops : t.ops = s.ops
  cq : t.cq = s.cq
  pc : t.pc = s.pc
  acceptPending : t.acceptPending = s.acceptPending
  notifyPending : t.notifyPending = s.notifyPending

def armed (op : OpType) : ℕ := s.tags.count (none, op)

variable {D s t u fd p}

section adds

lemma Adds.refl (s : Reactor) : Adds s s :=
  ⟨⟨[], (List.append_nil _).symm, nofun⟩, rfl, rfl, rfl, rfl, rfl⟩

lemma Adds.trans (h : Adds s t) (h' : Adds t u) : Adds s u := by
  obtain ⟨new, hsq, hnew⟩ := h.sq
  obtain ⟨new', hsq', hnew'⟩ := h'.sq
  refine ⟨⟨new ++ new', by rw [hsq', hsq, List.append_assoc], fun e he => ?_⟩, h'.ops.trans h.ops,
    h'.cq.trans h.cq,
    h'.pc.trans h.pc, h'.acceptPending.trans h.acceptPending,
    h'.notifyPending.trans h.notifyPending⟩
  exact (List.mem_append.mp he).elim (hnew e) (hnew' e)

lemma adds_submit {e : Sqe} (he : e.ctx ≠ none) (h : s.submit e = some t) : Adds s t := by
  cases submit_eq h
  refine { Adds.refl s with sq := ⟨[e], rfl, fun e' he' => ?_⟩ }
  rw [List.mem_singleton.mp he']
  exact he

lemma adds_close : Adds s (s.close fd) := by
  unfold close
  cases s.find fd with
  | none => exact Adds.refl s
  | some p => exact { Adds.refl s with }

lemma adds_orClose {submitted : Option Reactor} (h : ∀ t, submitted = some t → Adds s t) :
    Adds s (s.orClose fd submitted) := by
  cases submitted with
  | none => exact adds_close
  | some t => exact h t rfl

lemma adds_modify (f : ConnectionContext → ConnectionContext) : Adds s (s.modify p f) :=
  { Adds.refl s with }

lemma adds_submitRecv (h : s.submitRecv fd = some t) : Adds s t := by
  unfold submitRecv at h
  cases hfind : s.find fd with
  | none => simp [hfind] at h
  | some p =>
    simp only [hfind, Option.map_eq_some_iff] at h
    obtain ⟨u, hu, rfl⟩ := h
    exact (adds_submit (by simp) hu).trans { Adds.refl u with }

lemma adds_submitSend (h : s.submitSend fd = some t) : Adds s t := by
  unfold submitSend at h
  cases hfind : s.find fd with
  | none => simp [hfind] at h
  | some p =>
    cases hq : (s.ctx p).outQueue with
    | nil =>
      simp only [hfind, hq, Option.some.injEq] at h
      subst h
      exact adds_modify _
    | cons front rest =>
      simp only [hfind, hq, Option.map_eq_some_iff] at h
      obtain ⟨u, hu, rfl⟩ := h
      exact (adds_submit (by simp) hu).trans { Adds.refl u with }

lemma adds_handleRecv {result : ℤ} : Adds s (s.handleRecv D p result) := by
  unfold handleRecv
  split_ifs
  · exact Adds.refl s
  · exact adds_orClose (fun _ h => adds_submitRecv h)
  · exact adds_close
  cases hdrain : D.uringDecoder.drain (s.ctx p).input with | mk requests status =>
  have hdispatched : Adds s (s.dispatch p requests) := { Adds.refl s with }
  cases status with
  | stopped => exact hdispatched.trans adds_close
  | pending rest =>
    have hread := hdispatched.trans (adds_modify (p := p) (fun ctx => { ctx with input := rest }))
    simp only
    split_ifs
    · exact hread.trans (adds_modify _)
    · exact hread.trans (adds_orClose (fun _ h => adds_submitRecv h))

lemma adds_continueSend : Adds s (s.continueSend p) := by
  unfold continueSend
  split_ifs
  · exact adds_modify _
  · exact adds_orClose (fun _ h => adds_submitSend h)

lemma adds_handleSend {result : ℤ} : Adds s (s.handleSend p result) := by
  unfold handleSend
  split_ifs
  · exact adds_close
  cases (s.ctx p).outQueue with
  | nil => exact { Adds.refl s with }
  | cons front rest =>
    simp only
    split_ifs with hdone hresume
    · have hresumed := (adds_modify (s := s) (p := p) (fun ctx =>
        { ctx with outQueue := rest, written := 0, pendingReqs := ctx.pendingReqs - 1 })).trans
          (adds_modify (p := p) (fun ctx => { ctx with readPaused := false }))
      generalize Reactor.modify _ p (fun ctx => { ctx with readPaused := false }) = u at *
      cases hrecv : u.submitRecv (s.ctx p).fd with
      | none => exact hresumed.trans adds_close
      | some t => exact (hresumed.trans (adds_submitRecv hrecv)).trans adds_continueSend
    · exact (adds_modify _).trans adds_continueSend
    · exact (adds_modify _).trans adds_continueSend

lemma adds_resume (c : Coro) : Adds s (s.resume c) := by
  unfold resume deliverResponse
  split_ifs
  · exact Adds.refl s
  cases s.find c.fd with
  | none => exact Adds.refl s
  | some p =>
    simp only
    split_ifs
    · exact Adds.refl s
    · exact adds_modify _
    · exact (adds_modify _).trans (adds_orClose (fun _ h => adds_submitSend h))

lemma adds_handleNotify : Adds s s.handleNotify := by
  unfold handleNotify
  have hempty : Adds s { s with readyCoros := [] } := { Adds.refl s with }
  generalize ({ s with readyCoros := [] } : Reactor) = u at hempty
  induction s.readyCoros generalizing u with
  | nil => exact hempty
  | cons c rest ih => exact ih _ (hempty.trans (adds_resume c))

lemma adds_copyOut (e : Cqe) : Adds s (s.copyOut e p) := by
  unfold copyOut
  split_ifs
  · exact { Adds.refl s with }
  · exact Adds.refl s

lemma Adds.armed (h : Adds s t) (op : OpType) : t.armed op = s.armed op := by
  obtain ⟨new, hsq, hnew⟩ := h.sq
  have hnone : (new.map (fun e => (e.ctx, e.op))).count (none, op) = 0 := by
    refine List.count_eq_zero.mpr (fun hmem => ?_)
    obtain ⟨e, he, heq⟩ := List.mem_map.mp hmem
    exact hnew e he (Prod.mk.inj heq).1
  simp only [Reactor.armed, tags, hsq, h.ops, h.cq, List.map_append, List.count_append, hnone,
    Nat.add_zero]

end adds

section turns

structure Owes (s : Reactor) (accepts notifies : ℕ) : Prop where
  accept : s.armed .accept + s.acceptPending.toNat = accepts
  notify : s.armed .notify + s.notifyPending.toNat = notifies
  deferred : s.acceptPending = true ∨ s.notifyPending = true → s.sq ≠ []
  pc : s.pc = .draining

variable {m n : ℕ}

lemma Adds.owes (h : Adds s t) (hs : s.Owes m n) : t.Owes m n := by
  obtain ⟨new, hsq, -⟩ := h.sq
  refine ⟨?_, ?_, fun hpending => ?_, h.pc.trans hs.pc⟩
  · rw [h.armed, h.acceptPending, hs.accept]
  · rw [h.armed, h.notifyPending, hs.notify]
  · rw [h.acceptPending, h.notifyPending] at hpending
    rw [hsq]
    exact List.append_ne_nil_of_left_ne_nil (hs.deferred hpending) _

lemma armed_submit {e : Sqe} (h : s.submit e = some t) (op : OpType) :
    t.armed op = s.armed op + if (e.ctx, e.op) = (none, op) then 1 else 0 := by
  rw [armed, (tags_submit h).count_eq, List.count_cons, armed]
  simp

lemma sq_full {e : Sqe} (h : s.submit e = none) : kSqEntries ≤ s.sq.length := by
  unfold submit at h
  split_ifs at h with hlt
  exact not_lt.mp hlt

lemma sq_ne_nil {e : Sqe} (h : s.submit e = none) : s.sq ≠ [] := by
  have hfull := sq_full h
  intro hnil
  rw [hnil] at hfull
  exact absurd hfull (by decide)

lemma Owes.retryAccept (h : s.Owes 0 n) : s.retryAccept.Owes 1 n := by
  have haccept := h.accept
  unfold Reactor.retryAccept submitAccept
  cases hsubmit : s.submit ⟨.accept, 0, none, [], 0⟩ with
  | none =>
    have harmed : s.armed .accept = 0 := by omega
    exact ⟨congrArg (· + 1) harmed, h.notify, fun _ => (sq_ne_nil hsubmit : s.sq ≠ []), h.pc⟩
  | some t =>
    have harmed := armed_submit hsubmit
    have hshape := submit_eq hsubmit
    refine ⟨?_, ?_, fun _ => ?_, by rw [Option.getD_some, hshape]; exact h.pc⟩
    · rw [Option.getD_some, harmed, hshape]
      simp only [↓reduceIte]
      omega
    · rw [Option.getD_some, harmed, hshape]
      simpa using h.notify
    · rw [Option.getD_some, hshape]
      simp

lemma Owes.retryNotify (h : s.Owes m 0) : s.retryNotify.Owes m 1 := by
  have hnotify := h.notify
  unfold Reactor.retryNotify submitNotifyRead
  cases hsubmit : s.submit ⟨.notify, 0, none, [], 0⟩ with
  | none =>
    have harmed : s.armed .notify = 0 := by omega
    exact ⟨h.accept, congrArg (· + 1) harmed, fun _ => (sq_ne_nil hsubmit : s.sq ≠ []), h.pc⟩
  | some t =>
    have harmed := armed_submit hsubmit
    have hshape := submit_eq hsubmit
    refine ⟨?_, ?_, fun _ => ?_, by rw [Option.getD_some, hshape]; exact h.pc⟩
    · rw [Option.getD_some, harmed, hshape]
      simpa using h.accept
    · rw [Option.getD_some, harmed, hshape]
      simp only [↓reduceIte]
      omega
    · rw [Option.getD_some, hshape]
      simp

lemma owes_handleCqe {e : Cqe} {rest : List Cqe} (hs : s.view.Sound) (hcq : s.cq = e :: rest)
    (h : s.Owes 1 1) : (({ s with cq := rest } : Reactor).handleCqe D e).Owes 1 1 := by
  have hplaced := placed hcq hs
  have hcount : ∀ op, s.armed op =
      ({ s with cq := rest } : Reactor).armed op + if (e.ctx, e.op) = (none, op) then 1 else 0 := by
    intro op
    rw [armed, (tags_pop hcq).count_eq, List.count_cons, armed]
    simp
  have haccept := h.accept
  have hnotify := h.notify
  rw [hcount] at haccept hnotify
  unfold handleCqe
  cases hctx : e.ctx with
  | none =>
    rw [hctx] at hplaced haccept hnotify
    simp only [handler]
    cases hop : e.op with
    | accept =>
      simp only [hop, ↓reduceIte, Prod.mk.injEq, reduceCtorEq, and_false, Nat.add_zero]
        at haccept hnotify
      have hpop : ({ s with cq := rest } : Reactor).Owes 0 1 := by
        refine ⟨?_, hnotify, h.deferred, h.pc⟩
        show ({ s with cq := rest } : Reactor).armed .accept + s.acceptPending.toNat = 0
        omega
      by_cases hresult : e.result < 0
      · simp only [handleAccept, hresult, ↓reduceIte]
        exact hpop.retryAccept
      · simp only [handleAccept, hresult, ↓reduceIte]
        have hacquire : Adds { s with
            cq := rest } (({ s with cq := rest } : Reactor).acquire e.result.toNat) :=
          { Adds.refl _ with }
        exact ((hacquire.trans (adds_orClose (fun _ h => adds_submitRecv h))).owes hpop).retryAccept
    | notify =>
      simp only [hop, ↓reduceIte, Prod.mk.injEq, reduceCtorEq, and_false, Nat.add_zero]
        at haccept hnotify
      have hpop : ({ s with cq := rest } : Reactor).Owes 1 0 := by
        refine ⟨haccept, ?_, h.deferred, h.pc⟩
        show ({ s with cq := rest } : Reactor).armed .notify + s.notifyPending.toNat = 0
        omega
      exact (adds_handleNotify.owes hpop).retryNotify
    | recv => simp [misplaced, hop] at hplaced
    | send => simp [misplaced, hop] at hplaced
  | some p =>
    rw [hctx] at hplaced haccept hnotify
    simp only [Prod.mk.injEq, reduceCtorEq, false_and, ↓reduceIte, Nat.add_zero] at haccept hnotify
    have hcopy :=
      (adds_copyOut (p := p) e).owes
      (⟨haccept, hnotify, h.deferred, h.pc⟩ : ({ s with cq := rest } : Reactor).Owes 1 1)
    simp only [entered]
    generalize ({ s with cq := rest } : Reactor).copyOut e p = u at hcopy
    have hcomplete : Adds u { u with mgr := (u.mgr.onComplete p).2 } := { Adds.refl u with }
    by_cases hrecycled : (u.mgr.onComplete p).1 = true
    · simp only [hrecycled, ↓reduceIte]
      exact hcomplete.owes hcopy
    · simp only [hrecycled, handler, hctx, Bool.false_eq_true, ↓reduceIte]
      cases hop : e.op with
      | accept => simp [misplaced, hop] at hplaced
      | notify => simp [misplaced, hop] at hplaced
      | recv => exact (hcomplete.trans adds_handleRecv).owes hcopy
      | send => exact (hcomplete.trans adds_handleSend).owes hcopy

lemma owes_retryDeferred (haccept : s.armed .accept + s.acceptPending.toNat = 1)
    (hnotify : s.armed .notify + s.notifyPending.toNat = 1) : s.retryDeferred.Owes 1 1 ∧
      (s.sq.length + 2 ≤ kSqEntries → s.retryDeferred.acceptPending = false ∧
        s.retryDeferred.notifyPending = false) := by
  have hfirst : ∀ u : Reactor, u.armed .accept + u.acceptPending.toNat = 1 →
      ∃ v, (if u.acceptPending then
      (u.submitAccept.map (fun t => { t with acceptPending := false })).getD u else u) = v ∧
        v.armed .accept + v.acceptPending.toNat = 1 ∧ v.armed .notify = u.armed .notify ∧
        v.notifyPending = u.notifyPending ∧ (v.acceptPending = true → v.sq ≠ []) ∧
        (u.sq.length < kSqEntries → v.acceptPending = false ∧ v.sq.length ≤ u.sq.length + 1) := by
    intro u hu
    split_ifs with hpending
    · cases hsubmit : u.submitAccept with
      | none =>
        exact ⟨u, rfl, hu, rfl, rfl, fun _ => sq_ne_nil hsubmit,
          fun hlt => absurd (sq_full hsubmit) (not_le.mpr hlt)⟩
      | some t =>
        have harmed := armed_submit hsubmit
        have hshape := submit_eq hsubmit
        refine ⟨{ t with acceptPending := false }, rfl, ?_,
          ?_, by rw [hshape], nofun, fun _ => ⟨rfl, by simp [hshape]⟩⟩
        · rw [hpending] at hu
          show t.armed .accept + 0 = 1
          rw [harmed]
          simpa using hu
        · show t.armed .notify = _
          rw [harmed]
          simp
    · exact ⟨u, rfl, hu, rfl, rfl, fun h => absurd h hpending,
        fun _ => ⟨by simpa using hpending, Nat.le_succ _⟩⟩
  have hsecond : ∀ u : Reactor, u.armed .notify + u.notifyPending.toNat = 1 →
      ∃ v, (if u.notifyPending then
      (u.submitNotifyRead.map (fun t => { t with notifyPending := false })).getD u else u) = v ∧
        v.armed .notify + v.notifyPending.toNat = 1 ∧ v.armed .accept = u.armed .accept ∧
        v.acceptPending = u.acceptPending ∧ (v.notifyPending = true → v.sq ≠ []) ∧ u.sq <+: v.sq ∧
        (u.sq.length < kSqEntries → v.notifyPending = false) := by
    intro u hu
    split_ifs with hpending
    · cases hsubmit : u.submitNotifyRead with
      | none =>
        exact ⟨u, rfl, hu, rfl, rfl, fun _ => sq_ne_nil hsubmit, List.prefix_rfl,
          fun hlt => absurd (sq_full hsubmit) (not_le.mpr hlt)⟩
      | some t =>
        have harmed := armed_submit hsubmit
        have hshape := submit_eq hsubmit
        refine ⟨{ t with notifyPending := false }, rfl, ?_,
          ?_, by rw [hshape], nofun, by simp [hshape], fun _ => rfl⟩
        · rw [hpending] at hu
          show t.armed .notify + 0 = 1
          rw [harmed]
          simpa using hu
        · show t.armed .accept = _
          rw [harmed]
          simp
    · exact ⟨u, rfl, hu, rfl, rfl, fun h => absurd h hpending, List.prefix_rfl,
        fun _ => by simpa using hpending⟩
  obtain ⟨v, hv, hvaccept, hvnotify, hvpending, hvfull, hvroom⟩ := hfirst s haccept
  obtain ⟨w, hw, hwnotify, hwaccept, hwpending, hwfull, hgrow, hwroom⟩ :=
    hsecond v (by rw [hvnotify, hvpending, hnotify])
  have hdeferred : s.retryDeferred = { w with pc := .draining } := by
    simp only [retryDeferred, hv, hw]
  rw [hdeferred]
  refine ⟨⟨?_, hwnotify, fun hpending => ?_, rfl⟩, fun hroom => ?_⟩
  · show w.armed .accept + w.acceptPending.toNat = 1
    rw [hwaccept, hwpending, hvaccept]
  · show w.sq ≠ []
    rcases hpending with haccept | hnotify
    · obtain ⟨rest, hrest⟩ := hgrow
      rw [← hrest]
      exact List.append_ne_nil_of_left_ne_nil (hvfull (hwpending ▸ haccept)) _
    · exact hwfull hnotify
  · obtain ⟨hv', hvlen⟩ := hvroom (by omega)
    exact ⟨hwpending.trans hv', hwroom (by omega)⟩

end turns

section runs

variable (s) in
/-- An accept and a read of the eventfd are each on their way or put off. What is put off does
not wait alone. -/
structure Listens : Prop where
  accept : s.armed .accept + s.acceptPending.toNat = 1
  notify : s.armed .notify + s.notifyPending.toNat = 1
  deferred : s.acceptPending = true ∨ s.notifyPending = true → s.tags ≠ []
  draining : s.pc = .draining → s.acceptPending = true ∨ s.notifyPending = true → s.sq ≠ []

lemma Owes.listens (h : s.Owes 1 1) : s.Listens := by
  refine ⟨h.accept, h.notify, fun hpending => ?_, fun _ => h.deferred⟩
  have hsq := h.deferred hpending
  simp [tags, hsq]

lemma Listens.moved (h : s.Listens) (htags : t.tags.Perm s.tags)
    (haccept : t.acceptPending = s.acceptPending)
    (hnotify : t.notifyPending = s.notifyPending)
    (hpc : t.pc = .draining → s.pc = .draining ∧ t.sq = s.sq) : t.Listens := by
  refine ⟨?_, ?_, fun hpending hnil => ?_, fun hdraining hpending => ?_⟩
  · rw [armed, htags.count_eq, haccept]
    exact h.accept
  · rw [armed, htags.count_eq, hnotify]
    exact h.notify
  · rw [haccept, hnotify] at hpending
    rw [hnil] at htags
    exact h.deferred hpending htags.symm.eq_nil
  · rw [haccept, hnotify] at hpending
    obtain ⟨hpc, hsq⟩ := hpc hdraining
    rw [hsq]
    exact h.draining hpc hpending

lemma Listens.complete {o : Op} {i : ℕ} (h : s.Listens) (result : ℤ) (data : Wire.Bytes)
    (hi : s.ops[i]? = some o) :
    (s.complete i result data).Listens := by
  have htags := tags_complete result data hi
  obtain ⟨ops, cq, hshape⟩ := complete_shape (s := s) i result data
  exact h.moved htags (by rw [hshape]) (by rw [hshape])
    (fun hpc => by rw [hshape] at hpc ⊢; exact ⟨hpc, rfl⟩)

lemma Listens.step {a : Action} (h : s.Listens) (hs : s.view.Sound) (hstep : s.step D a = some t) :
    t.Listens := by
  obtain ⟨hen, rfl⟩ := step_cases hstep
  cases a with
  | enter n => exact h.moved (tags_handOver n) rfl rfl (fun hpc => by cases hpc)
  | interrupted => exact h.moved (.refl _) rfl rfl (fun hpc => by cases hpc)
  | loop => exact h.moved (.refl _) rfl rfl (fun hpc => by cases hpc)
  | wake => exact (owes_retryDeferred h.accept h.notify).1.listens
  | handle =>
    cases hcq : s.cq with
    | nil => exact absurd hcq hen.2
    | cons e rest =>
      simp only [effect, hcq]
      exact (owes_handleCqe hs hcq ⟨h.accept, h.notify, h.draining hen.1, hen.1⟩).listens
  | acceptDone i fd =>
    obtain ⟨⟨o, hi, -⟩, -⟩ := hen
    have hc := h.complete fd [] hi
    exact ⟨hc.accept, hc.notify, hc.deferred, hc.draining⟩
  | recvDone i data =>
    obtain ⟨⟨o, hi, -⟩, -⟩ := hen
    simp only [effect]
    cases (s.ops[i]?).bind Op.socket with
    | none => exact h
    | some k =>
      have hc := h.complete data.length data hi
      exact ⟨hc.accept, hc.notify, hc.deferred, hc.draining⟩
  | sendDone i n =>
    obtain ⟨⟨o, hi, -⟩, -⟩ := hen
    exact h.complete n [] hi
  | notifyDone i =>
    obtain ⟨⟨o, hi, -⟩, -⟩ := hen
    have hc := h.complete 8 [] hi
    exact ⟨hc.accept, hc.notify, hc.deferred, hc.draining⟩
  | opFail i result =>
    obtain ⟨o, hi⟩ := Option.ne_none_iff_exists'.mp hen.1
    exact h.complete result [] hi
  | workerDone i responseStr =>
    simp only [effect, workerDone]
    cases s.tasks[i]? with
    | none => exact h
    | some task => exact ⟨h.accept, h.notify, h.deferred, h.draining⟩
  | eventfdWrite => exact ⟨h.accept, h.notify, h.deferred, h.draining⟩

/-- The server goes on listening: in every state the accept and the read of the eventfd are each
on their way exactly once or put off, something is on its way for the loop to wait for, and
what was put off is submitted as soon as the loop wakes up with room in the queue. -/
theorem always_listening (D : Decoding) {as : List Action}
    (h : Run (Reactor.step D) Any listening as s) :
    s.armed .accept + s.acceptPending.toNat = 1 ∧ s.armed .notify + s.notifyPending.toNat = 1 ∧
    s.tags ≠ [] ∧
    ∀ t, s.step D .wake = some t → s.sq.length + 2 ≤ kSqEntries → t.acceptPending = false ∧
    t.notifyPending = false := by
  have hlistens : s.Listens := by
    refine h.invariant_with (I := Listens) (K := fun u => u.view.Sound) ?_
      (fun _ _ hr => sound_run hr)
      (fun _ _ _ hs _ hu _ hstep => hu.step hs hstep)
    exact ⟨rfl, rfl, by simp [listening], by simp [listening]⟩
  refine ⟨hlistens.accept, hlistens.notify, fun hnil => ?_, fun t hstep hroom => ?_⟩
  · have haccept := hlistens.accept
    cases hpending : s.acceptPending with
    | true => exact hlistens.deferred (.inl hpending) hnil
    | false => simp [armed, hnil, hpending] at haccept
  · obtain ⟨-, rfl⟩ := step_cases hstep
    exact (owes_retryDeferred hlistens.accept hlistens.notify).2 hroom

theorem always_listening_sample :
    ∃ t, exec (Reactor.step sampleDecoding) listening acceptRun = some t ∧
    t.accepts = 1 ∧ t.armed .accept = 1 ∧ t.tags ≠ [] := by
  obtain ⟨t, ht, hd⟩ : ∃ t, exec (Reactor.step sampleDecoding) listening acceptRun = some t ∧
      decide (t.accepts = 1 ∧ t.acceptPending = false) = true := exec_any (by decide)
  obtain ⟨hone, hpending⟩ := of_decide_eq_true hd
  obtain ⟨haccept, -, hsome, -⟩ := always_listening sampleDecoding (.of_exec ht (by decide))
  rw [hpending] at haccept
  exact ⟨t, ht, hone, haccept, hsome⟩

end runs

end KimRpc.Server.Reactor
