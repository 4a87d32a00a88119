import KimRpc.Server.Handlers

/-! What the handlers leave as it is. A step of a handler keeps the contexts' descriptors,
sockets and connection ids, maps no descriptor anew, and queues only operations on
connections that are open. -/

namespace KimRpc.Server.Reactor

variable (D : Decoding) (s t u : Reactor) (fd p : ℕ)

def Prepared (e : Sqe) : Prop :=
  (e.ctx = none ∧ (e.op = .accept ∨ e.op = .notify)) ∨
    ∃ p, e.ctx = some p ∧ s.find e.fd = some p ∧ e.owner = (s.ctx p).socket

structure Quiet : Prop where
  fd : ∀ q, (t.ctx q).fd = (s.ctx q).fd
  connId : ∀ q, (t.ctx q).connId = (s.ctx q).connId
  socket : ∀ q, (t.ctx q).socket = (s.ctx q).socket
  find : ∀ fd, t.find fd = s.find fd ∨ t.find fd = none
  files : ∀ fd, t.files fd = s.files fd ∨ t.files fd = none
  linked : ∀ fd p, s.find fd = some p → (s.ctx p).fd = fd → t.find fd = some p ∨ t.files fd = none
  queued : ∀ e ∈ t.sq, e ∈ s.sq ∨ s.Prepared e
  ops : t.ops = s.ops
  cq : t.cq = s.cq
  accepts : t.accepts = s.accepts
  received : t.received = s.received
  fed : t.fed = s.fed
  handed : t.handed = s.handed
  acquired : t.acquired = s.acquired
  nextId : t.mgr.nextId = s.mgr.nextId
  allConns : t.mgr.allConns = s.mgr.allConns

variable {D s t u fd p}

lemma Quiet.refl (s : Reactor) : Quiet s s :=
  ⟨fun _ => rfl, fun _ => rfl, fun _ => rfl, fun _ => .inl rfl, fun _ => .inl rfl,
    fun _ _ h _ => .inl h,
    fun _ h => .inl h, rfl, rfl, rfl, rfl,
    rfl, rfl, rfl, rfl, rfl⟩

lemma Quiet.prepared (h : Quiet s t) {e : Sqe} (he : t.Prepared e) : s.Prepared e := by
  rcases he with hnone | ⟨p, hctx, hfind, howner⟩
  · exact .inl hnone
  · refine .inr ⟨p, hctx, ?_, howner.trans (h.socket p)⟩
    rcases h.find e.fd with hsame | hgone
    · rw [← hsame, hfind]
    · rw [hgone] at hfind
      cases hfind

lemma Quiet.trans (h : Quiet s t) (h' : Quiet t u) : Quiet s u where
  fd q := (h'.fd q).trans (h.fd q)
  connId q := (h'.connId q).trans (h.connId q)
  socket q := (h'.socket q).trans (h.socket q)
  find fd := by
    rcases h'.find fd with hsame | hgone
    · rw [hsame]
      exact h.find fd
    · exact .inr hgone
  files fd := by
    rcases h'.files fd with hsame | hgone
    · rw [hsame]
      exact h.files fd
    · exact .inr hgone
  linked fd p hp hfd := by
    rcases h.linked fd p hp hfd with hsame | hclosed
    · exact h'.linked fd p hsame ((h.fd p).trans hfd)
    · rcases h'.files fd with hsame | hclosed'
      · exact .inr (hsame.trans hclosed)
      · exact .inr hclosed'
  queued e he := by
    rcases h'.queued e he with hold | hnew
    · exact h.queued e hold
    · exact .inr (h.prepared hnew)
  ops := h'.ops.trans h.ops
  cq := h'.cq.trans h.cq
  accepts := h'.accepts.trans h.accepts
  received := h'.received.trans h.received
  fed := h'.fed.trans h.fed
  handed := h'.handed.trans h.handed
  acquired := h'.acquired.trans h.acquired
  nextId := h'.nextId.trans h.nextId
  allConns := h'.allConns.trans h.allConns

lemma ctx_modify_apply (f : ConnectionContext → ConnectionContext) (q : ℕ) :
    (s.modify p f).ctx q = if q = p then f (s.ctx q) else s.ctx q := by
  by_cases hq : q = p
  · subst hq
    rw [ctx_modify, if_pos rfl]
  · rw [if_neg hq]
    exact View.modify_ctx_ne (v := s.view) f hq

lemma quiet_modify {f : ConnectionContext → ConnectionContext} (hfd : ∀ ctx, (f ctx).fd = ctx.fd)
    (hid : ∀ ctx, (f ctx).connId = ctx.connId) (hsocket : ∀ ctx, (f ctx).socket = ctx.socket) :
    Quiet s (s.modify p f) := by
  refine { Quiet.refl s with fd := fun q => ?_, connId := fun q => ?_, socket := fun q => ?_ }
  all_goals
    rw [ctx_modify_apply]
    split_ifs
    · simp only [hfd, hid, hsocket]
    · rfl

lemma quiet_submit {e : Sqe} (he : s.Prepared e) (h : s.submit e = some t) : Quiet s t := by
  cases submit_eq h
  refine { Quiet.refl s with queued := fun e' he' => ?_ }
  rcases List.mem_append.mp he' with hold | hnew
  · exact .inl hold
  · rw [List.mem_singleton.mp hnew]
    exact .inr he

lemma quiet_onSubmit : Quiet s (s.onSubmit p) :=
  quiet_modify (fun _ => rfl) (fun _ => rfl) (fun _ => rfl)

lemma quiet_close : Quiet s (s.close fd) := by
  unfold close
  cases hfind : s.find fd with
  | none => exact Quiet.refl s
  | some p =>
    have hmgr := ConnectionManager.close_of_find hfind
    have hctx :
        ∀ q, ({ s with mgr := s.mgr.close fd, files := Function.update s.files (s.ctx p).fd none } :
          Reactor).ctx q =
        if q = p then { s.ctx q with closing := true } else s.ctx q := by
      intro q
      simp only [Reactor.ctx, hmgr, Function.update_apply]
      split_ifs with hq
      · rw [hq]
      · rfl
    refine { Quiet.refl s with
      fd := fun q => ?_, connId := fun q => ?_, socket := fun q => ?_, find := fun fd' => ?_,
      files := fun fd' => ?_,
      linked := fun fd' q hq hfd' => ?_, nextId := ?_, allConns := ?_ }
    · rw [hctx]
      split_ifs <;> rfl
    · rw [hctx]
      split_ifs <;> rfl
    · rw [hctx]
      split_ifs <;> rfl
    · simp only [Reactor.find, ConnectionManager.find, hmgr, Function.update_apply]
      split_ifs
      · exact .inr rfl
      · exact .inl rfl
    · simp only [Function.update_apply]
      split_ifs
      · exact .inr rfl
      · exact .inl rfl
    · simp only [Reactor.find, ConnectionManager.find, hmgr, Function.update_apply]
      by_cases heq : fd' = fd
      · subst heq
        cases Option.some.inj (hfind.symm.trans hq)
        exact .inr (if_pos hfd'.symm)
      · exact .inl ((if_neg heq).trans hq)
    · rw [hmgr]
    · rw [hmgr]

lemma quiet_orClose {submitted : Option Reactor} (h : ∀ t, submitted = some t → Quiet s t) :
    Quiet s (s.orClose fd submitted) := by
  cases submitted with
  | none => exact quiet_close
  | some t => exact h t rfl

lemma quiet_submitRecv (h : s.submitRecv fd = some t) : Quiet s t := by
  unfold submitRecv at h
  cases hfind : s.find fd with
  | none => simp [hfind] at h
  | some p =>
    simp only [hfind, Option.map_eq_some_iff] at h
    obtain ⟨u, hu, rfl⟩ := h
    exact (quiet_submit (.inr ⟨p, rfl, hfind, rfl⟩) hu).trans quiet_onSubmit

lemma quiet_submitSend (h : s.submitSend fd = some t) : Quiet s t := by
  unfold submitSend at h
  cases hfind : s.find fd with
  | none => simp [hfind] at h
  | some p =>
    cases hq : (s.ctx p).outQueue with
    | nil =>
      simp only [hfind, hq, Option.some.injEq] at h
      subst h
      exact quiet_modify (fun _ => rfl) (fun _ => rfl) (fun _ => rfl)
    | cons front rest =>
      simp only [hfind, hq, Option.map_eq_some_iff] at h
      obtain ⟨u, hu, rfl⟩ := h
      have hsubmit := quiet_submit (.inr ⟨p, rfl, hfind, rfl⟩) hu
      apply (hsubmit.trans quiet_onSubmit).trans
      exact quiet_modify (fun _ => rfl) (fun _ => rfl) (fun _ => rfl)

lemma quiet_retryAccept : Quiet s s.retryAccept := by
  unfold retryAccept submitAccept
  cases h : s.submit ⟨.accept, 0, none, [], 0⟩ with
  | none => exact { Quiet.refl s with }
  | some t => exact quiet_submit (.inl ⟨rfl, .inl rfl⟩) h

lemma quiet_retryNotify : Quiet s s.retryNotify := by
  unfold retryNotify submitNotifyRead
  cases h : s.submit ⟨.notify, 0, none, [], 0⟩ with
  | none => exact { Quiet.refl s with }
  | some t => exact quiet_submit (.inl ⟨rfl, .inr rfl⟩) h

lemma quiet_dispatch (requests : List Wire.Request) : Quiet s (s.dispatch p requests) := by
  have hm :
      Quiet s (s.modify p (fun ctx => { ctx with
        pendingReqs := ctx.pendingReqs + requests.length })) :=
    quiet_modify (fun _ => rfl) (fun _ => rfl) (fun _ => rfl)
  exact { hm with }

lemma quiet_handleRecv {result : ℤ} : Quiet s (s.handleRecv D p result) := by
  unfold handleRecv
  split_ifs
  · exact Quiet.refl s
  · exact quiet_orClose (fun _ h => quiet_submitRecv h)
  · exact quiet_close
  cases hdrain : D.uringDecoder.drain (s.ctx p).input with | mk requests status =>
  have hdispatched := quiet_dispatch (s := s) (p := p) requests
  cases status with
  | stopped => exact hdispatched.trans quiet_close
  | pending rest =>
    have hread :
        Quiet s ((s.dispatch p requests).modify p (fun ctx => { ctx with input := rest })) :=
      hdispatched.trans (quiet_modify (fun _ => rfl) (fun _ => rfl) (fun _ => rfl))
    simp only
    split_ifs
    · exact hread.trans (quiet_modify (fun _ => rfl) (fun _ => rfl) (fun _ => rfl))
    · exact hread.trans (quiet_orClose (fun _ h => quiet_submitRecv h))

lemma quiet_continueSend : Quiet s (s.continueSend p) := by
  unfold continueSend
  split_ifs
  · exact quiet_modify (fun _ => rfl) (fun _ => rfl) (fun _ => rfl)
  · exact quiet_orClose (fun _ h => quiet_submitSend h)

lemma quiet_handleSend {result : ℤ} : Quiet s (s.handleSend p result) := by
  unfold handleSend
  split_ifs
  · exact quiet_close
  cases (s.ctx p).outQueue with
  | nil => exact { Quiet.refl s with }
  | cons front rest =>
    simp only
    split_ifs with hdone hresume
    · have hresumed : Quiet s ((s.modify p (fun ctx =>
          { ctx with outQueue := rest, written := 0, pendingReqs := ctx.pendingReqs - 1 })).modify p
            (fun ctx => { ctx with readPaused := false })) := by
        refine Quiet.trans ?_ (quiet_modify (fun _ => rfl) (fun _ => rfl) (fun _ => rfl))
        exact quiet_modify (fun _ => rfl) (fun _ => rfl) (fun _ => rfl)
      generalize Reactor.modify _ p (fun ctx => { ctx with readPaused := false }) = u at *
      cases hrecv : u.submitRecv (s.ctx p).fd with
      | none => exact hresumed.trans quiet_close
      | some t => exact (hresumed.trans (quiet_submitRecv hrecv)).trans quiet_continueSend
    · refine Quiet.trans ?_ quiet_continueSend
      exact quiet_modify (fun _ => rfl) (fun _ => rfl) (fun _ => rfl)
    · refine Quiet.trans ?_ quiet_continueSend
      exact quiet_modify (fun _ => rfl) (fun _ => rfl) (fun _ => rfl)

lemma quiet_deliverResponse {connId : UInt64} {data : Wire.Bytes} :
    Quiet s (s.deliverResponse fd connId data) := by
  unfold deliverResponse
  cases s.find fd with
  | none => exact Quiet.refl s
  | some p =>
    simp only
    split_ifs
    · exact Quiet.refl s
    · exact quiet_modify (fun _ => rfl) (fun _ => rfl) (fun _ => rfl)
    · refine Quiet.trans ?_ (quiet_orClose (fun _ h => quiet_submitSend h))
      exact quiet_modify (fun _ => rfl) (fun _ => rfl) (fun _ => rfl)

lemma quiet_handleNotify : Quiet s s.handleNotify := by
  unfold handleNotify
  have hempty : Quiet s { s with readyCoros := [] } := { Quiet.refl s with }
  generalize ({ s with readyCoros := [] } : Reactor) = u at hempty
  induction s.readyCoros generalizing u with
  | nil => exact hempty
  | cons c rest ih =>
    apply ih
    unfold resume
    split_ifs
    · exact hempty
    · exact hempty.trans quiet_deliverResponse

lemma quiet_onComplete : Quiet s { s with mgr := (s.mgr.onComplete p).2 } := by
  have hctx : ∀ q, ({ s with mgr := (s.mgr.onComplete p).2 } : Reactor).ctx q =
      if q = p then { s.ctx q with inflight := (s.ctx q).inflight - 1 } else s.ctx q := by
    intro q
    simp only [Reactor.ctx, ConnectionManager.onComplete_eq, Function.update_apply]
    split_ifs with hq
    · rw [hq]
    · rfl
  refine { Quiet.refl s with
    fd := fun q => ?_, connId := fun q => ?_, socket := fun q => ?_, find := fun fd' => ?_,
    linked := fun fd' q hq _ => .inl ?_, nextId := ?_, allConns := ?_ }
  · rw [hctx]
    split_ifs <;> rfl
  · rw [hctx]
    split_ifs <;> rfl
  · rw [hctx]
    split_ifs <;> rfl
  · simp only [Reactor.find, ConnectionManager.find, ConnectionManager.onComplete_eq]
    exact .inl trivial
  · simp only [Reactor.find, ConnectionManager.find, ConnectionManager.onComplete_eq]
    exact hq
  · simp only [ConnectionManager.onComplete_eq]
  · simp only [ConnectionManager.onComplete_eq]

lemma quiet_retryDeferred : Quiet s s.retryDeferred := by
  have haccept : ∀ u : Reactor, Quiet u (if u.acceptPending then
      (u.submitAccept.map (fun t => { t with acceptPending := false })).getD u else u) := by
    intro u
    split_ifs
    · cases h : u.submitAccept with
      | none => exact Quiet.refl u
      | some t => exact { quiet_submit (.inl ⟨rfl, .inl rfl⟩) h with }
    · exact Quiet.refl u
  have hnotify : ∀ u : Reactor, Quiet u (if u.notifyPending then
      (u.submitNotifyRead.map (fun t => { t with notifyPending := false })).getD u else u) := by
    intro u
    split_ifs
    · cases h : u.submitNotifyRead with
      | none => exact Quiet.refl u
      | some t => exact { quiet_submit (.inl ⟨rfl, .inr rfl⟩) h with }
    · exact Quiet.refl u
  exact { (haccept s).trans (hnotify _) with }

inductive Starts (e : Cqe) (rest : List Cqe) (t : Reactor) : Prop
  | accepted (hop : e.op = .accept) (hresult : 0 ≤ e.result)
      (hquiet : Quiet (({ s with cq := rest } : Reactor).acquire e.result.toNat) t)
  | plain (hctx : e.ctx = none) (hquiet : Quiet { s with cq := rest } t)
  | copied (p : ℕ) (hctx : e.ctx = some p)
      (hquiet : Quiet (({ s with cq := rest } : Reactor).copyOut e p) t)

lemma starts_handleCqe {e : Cqe} {rest : List Cqe} (h : s.view.Sound) (hcq : s.cq = e :: rest) :
    Starts (s := s) e rest (({ s with cq := rest } : Reactor).handleCqe D e) := by
  have hplaced := placed hcq h
  unfold handleCqe
  cases hctx : e.ctx with
  | none =>
    rw [hctx] at hplaced
    simp only [handler]
    cases hop : e.op with
    | accept =>
      by_cases hresult : e.result < 0
      · refine .plain hctx ?_
        simp only [handleAccept, hresult, ↓reduceIte]
        exact quiet_retryAccept
      · refine .accepted hop (not_lt.mp hresult) ?_
        simp only [handleAccept, hresult, ↓reduceIte]
        exact (quiet_orClose (fun _ h => quiet_submitRecv h)).trans quiet_retryAccept
    | notify => exact .plain hctx (quiet_handleNotify.trans quiet_retryNotify)
    | recv => simp [misplaced, hop] at hplaced
    | send => simp [misplaced, hop] at hplaced
  | some p =>
    rw [hctx] at hplaced
    refine .copied p hctx ?_
    simp only [entered]
    generalize ({ s with cq := rest } : Reactor).copyOut e p = u
    have hcomplete : Quiet u { u with mgr := (u.mgr.onComplete p).2 } := quiet_onComplete
    by_cases hrecycled : (u.mgr.onComplete p).1 = true
    · simp only [hrecycled, ↓reduceIte]
      exact hcomplete
    · simp only [hrecycled, handler, hctx, Bool.false_eq_true, ↓reduceIte]
      apply hcomplete.trans
      cases hop : e.op with
      | accept => simp [misplaced, hop] at hplaced
      | notify => simp [misplaced, hop] at hplaced
      | recv => exact quiet_handleRecv
      | send => exact quiet_handleSend

end KimRpc.Server.Reactor
