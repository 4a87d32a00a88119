import KimRpc.Server.Lifecycle

/-! Every step of the event loop keeps the contexts settled: the kernel and the workers
move operations about, and each handler submits what it owes to its context or closes it. -/

namespace KimRpc.Server

def Cqe.arrival (e : Cqe) : Option ℕ := if e.op = .accept ∧
  0 ≤ e.result then some e.result.toNat else none

def misplaced : Option ℕ × OpType → Bool
  | (none, .accept) | (none, .notify) | (some _, .recv) | (some _, .send) => false
  | _ => true

namespace Reactor

variable (D : Decoding) (s t : Reactor) (fd p : ℕ)

def tags : List (Option ℕ × OpType) :=
  s.sq.map (fun e => (e.ctx, e.op)) ++ s.ops.map (fun o => (o.sqe.ctx, o.sqe.op)) ++
    s.cq.map (fun e => (e.ctx, e.op))

def view : View where
  mgr := s.mgr
  files := s.files
  out p op := s.tags.count (some p, op)
  arrivals := s.cq.filterMap Cqe.arrival
  stray := s.tags.countP misplaced
  faulted := s.faulted

variable {D s t fd p}

lemma view_of_perm (hmgr : t.mgr = s.mgr) (hfiles : t.files = s.files) (htags : t.tags.Perm s.tags)
    (hcq : t.cq.filterMap Cqe.arrival = s.cq.filterMap Cqe.arrival)
    (hfault : t.faulted = s.faulted) :
    t.view = s.view := by
  have hout : ∀ p op, t.tags.count (some p, op) = s.tags.count (some p, op) :=
    fun p op => htags.count_eq _
  simp only [view, hmgr, hfiles, hout, hcq, hfault, htags.countP_eq]

lemma tags_handOver (n : ℕ) : (s.handOver n).tags.Perm s.tags := by
  have hsplit : s.sq.map (fun e => (e.ctx, e.op)) =
      (s.sq.take n).map (fun e => (e.ctx, e.op)) ++ (s.sq.drop n).map (fun e => (e.ctx, e.op)) := by
    rw [← List.map_append, List.take_append_drop]
  simp only [tags, handOver, List.map_append, List.map_map, hsplit, List.perm_iff_count,
    List.count_append]
  intro tag
  have hnew :
      (List.map ((fun o : Op => (o.sqe.ctx, o.sqe.op)) ∘ fun e => (⟨e, s.files e.fd⟩ : Op))
        (s.sq.take n)) =
      (s.sq.take n).map (fun e => (e.ctx, e.op)) := rfl
  rw [hnew]
  omega

lemma view_handOver (n : ℕ) :
    (s.handOver n).view = s.view := view_of_perm rfl rfl (tags_handOver n) rfl rfl

lemma submit_eq {e : Sqe} (h : s.submit e = some t) : t = { s with sq := s.sq ++ [e] } := by
  unfold submit at h
  split_ifs at h
  exact (Option.some.inj h).symm

lemma tags_submit {e : Sqe} (h : s.submit e = some t) : t.tags.Perm ((e.ctx, e.op) :: s.tags) := by
  rw [submit_eq h, tags, tags, List.map_append, List.map_cons, List.map_nil, List.append_assoc,
    List.append_assoc,
    List.append_assoc]
  exact List.perm_middle

lemma view_submit {op : OpType} {data : Wire.Bytes} {owner : ℕ}
    (h : s.submit ⟨op, fd, some p, data, owner⟩ = some t)
    (hop : op = .recv ∨ op = .send) : (t.onSubmit p).view = s.view.submit p op := by
  have htags := tags_submit h
  have hout : (fun q op' => t.tags.count (some q, op')) =
      Function.update s.view.out p (Function.update (s.view.out p) op (s.view.out p op + 1)) := by
    funext q op'
    rw [htags.count_eq, List.count_cons]
    by_cases hq : q = p
    · subst hq
      by_cases hop' : op' = op
      · simp [hop', view]
      · simp [hop', view, Ne.symm hop']
    · simp [hq, view, Ne.symm hq]
  have hstray : t.tags.countP misplaced = s.tags.countP misplaced := by
    rw [htags.countP_eq, List.countP_cons]
    rcases hop with rfl | rfl <;> simp [misplaced]
  cases submit_eq h
  simp only [View.submit, ← hout]
  simp only [onSubmit, view, tags] at hstray ⊢
  rw [hstray]

lemma view_submit_none {op : OpType} (h : s.submit ⟨op, fd, none, [], 0⟩ = some t)
    (hop : op = .accept ∨ op = .notify) : t.view = s.view := by
  have htags := tags_submit h
  have hout : ∀ q op', t.tags.count (some q, op') = s.tags.count (some q, op') := by
    intro q op'
    simp [htags.count_eq]
  have hstray : t.tags.countP misplaced = s.tags.countP misplaced := by
    rw [htags.countP_eq, List.countP_cons]
    rcases hop with rfl | rfl <;> simp [misplaced]
  cases submit_eq h
  simp only [view, hout, hstray]

lemma view_retryAccept : s.retryAccept.view = s.view := by
  unfold retryAccept submitAccept
  cases h : s.submit ⟨.accept, 0, none, [], 0⟩ with
  | none => rfl
  | some t => exact view_submit_none h (.inl rfl)

lemma view_retryNotify : s.retryNotify.view = s.view := by
  unfold retryNotify submitNotifyRead
  cases h : s.submit ⟨.notify, 0, none, [], 0⟩ with
  | none => rfl
  | some t => exact view_submit_none h (.inr rfl)

lemma view_retryDeferred : s.retryDeferred.view = s.view := by
  have haccept : ∀ u : Reactor, (if u.acceptPending then
      (u.submitAccept.map (fun t => { t with acceptPending := false })).getD u else u).view =
        u.view := by
    intro u
    split_ifs
    · cases h : u.submitAccept with
      | none => rfl
      | some t => exact (view_submit_none (t := t) h (.inl rfl) :)
    · rfl
  have hnotify : ∀ u : Reactor, (if u.notifyPending then
      (u.submitNotifyRead.map (fun t => { t with notifyPending := false })).getD u else u).view =
        u.view := by
    intro u
    split_ifs
    · cases h : u.submitNotifyRead with
      | none => rfl
      | some t => exact (view_submit_none (t := t) h (.inr rfl) :)
    · rfl
  exact (hnotify _).trans (haccept s)

lemma view_close : (s.close fd).view = s.view.close fd := by
  unfold Reactor.close View.close
  have hfind : s.view.find fd = s.find fd := rfl
  rw [hfind]
  cases s.find fd <;> rfl

lemma sound_orClose {submitted : Option Reactor} (hclose : (s.view.close fd).Sound)
    (hsubmit : ∀ t, submitted = some t → t.view.Sound) : (s.orClose fd submitted).view.Sound := by
  cases submitted with
  | none =>
    rw [← view_close] at hclose
    exact hclose
  | some t => exact hsubmit t rfl

lemma owing_submitRecv {n : ℕ} (h : s.view.Owing p 1 n) (ht : s.submitRecv (s.ctx p).fd = some t) :
    t.view.Owing p 0 n := by
  have hfind : s.find (s.ctx p).fd = some p := h.serving.mapped
  unfold submitRecv at ht
  simp only [hfind, Option.map_eq_some_iff] at ht
  obtain ⟨u, hu, rfl⟩ := ht
  rw [view_submit hu (.inl rfl)]
  exact h.submitRecv

lemma submitSend_view {front : Wire.Bytes} {rest : List Wire.Bytes} (hfind : s.find fd = some p)
    (hq : (s.ctx p).outQueue = front :: rest) (ht : s.submitSend fd = some t) :
    t.view = (s.view.modify p (fun ctx => { ctx with sending := true })).submit p .send := by
  unfold submitSend at ht
  simp only [hfind, hq, Option.map_eq_some_iff] at ht
  obtain ⟨u, hu, rfl⟩ := ht
  have hview : ((u.onSubmit p).modify p (fun ctx => { ctx with sending := true })).view =
      (u.onSubmit p).view.modify p (fun ctx => { ctx with sending := true }) := rfl
  rw [hview, view_submit hu (.inr rfl), View.submit_sending]

lemma owing_submitSend {r : ℕ} (h : s.view.Owing p r 1) (ht : s.submitSend (s.ctx p).fd = some t) :
    t.view.Owing p r 0 := by
  have hfind : s.find (s.ctx p).fd = some p := h.serving.mapped
  cases hq : (s.ctx p).outQueue with
  | nil =>
    simp only [submitSend, hfind, hq, Option.some.injEq] at ht
    subst ht
    exact h.stopSending hq
  | cons front rest =>
    rw [submitSend_view hfind hq ht]
    apply h.startSending.submitSend
    rw [View.modify_ctx_self]
    exact hq ▸ List.cons_ne_nil front rest

lemma sound_close {r n : ℕ} (h : s.view.Owing p r n) (hrn : 1 ≤ r + n) :
    (s.close (s.ctx p).fd).view.Sound := by
  rw [view_close]
  exact h.close hrn

lemma sound_rearm (h : s.view.Owing p 1 0) :
    (s.orClose (s.ctx p).fd (s.submitRecv (s.ctx p).fd)).view.Sound :=
  sound_orClose (h.close le_rfl) (fun _ ht => (owing_submitRecv h ht).sound)

lemma ctx_modify (f : ConnectionContext → ConnectionContext) : (s.modify p f).ctx p = f (s.ctx p) :=
  View.modify_ctx_self (v := s.view) f

lemma ctx_dispatch (requests : List Wire.Request) : (s.dispatch p requests).ctx p =
    { s.ctx p with pendingReqs := (s.ctx p).pendingReqs + requests.length } :=
  ctx_modify (s := s) (p := p) (fun ctx => { ctx with
    pendingReqs := ctx.pendingReqs + requests.length })

lemma sound_handleRecv {result : ℤ} (h : s.view.Owing p 1 0) :
    (s.handleRecv D p result).view.Sound := by
  have hc : (s.ctx p).closing = false := h.serving.closing
  unfold handleRecv
  simp only [hc, Bool.false_eq_true, ↓reduceIte]
  split_ifs with hresult hbuffers
  · exact sound_rearm h
  · exact sound_close h le_rfl
  generalize D.uringDecoder.drain (s.ctx p).input = drained
  have hdispatched : (s.dispatch p drained.1).view.Owing p 1 0 :=
    h.read (fun ctx => ctx.pendingReqs + drained.1.length) (fun ctx => ctx.input)
  have hfd := congrArg ConnectionContext.fd (ctx_dispatch (s := s) (p := p) drained.1)
  cases drained.2 with
  | stopped =>
    have hclosed := sound_close hdispatched le_rfl
    rw [hfd] at hclosed
    exact hclosed
  | pending rest =>
    have hread := hdispatched.read (fun ctx => ctx.pendingReqs) (fun _ => rest)
    simp only
    split_ifs with hfull
    · exact (hread.pause hfull).sound
    · have hrearmed :=
        sound_rearm (s := (s.dispatch p drained.1).modify p (fun ctx => { ctx with input := rest }))
          hread
      rw [ctx_modify, ctx_dispatch] at hrearmed
      exact hrearmed

lemma sound_continueSend (h : s.view.Owing p 0 1) : (s.continueSend p).view.Sound := by
  unfold continueSend
  split_ifs with hq
  · exact (h.stopSending hq).sound
  · exact sound_orClose (h.close le_rfl) (fun _ ht => (owing_submitSend h ht).sound)

lemma sound_handleSend {result : ℤ} (h : s.view.Owing p 0 1) (hq : (s.ctx p).outQueue ≠ []) :
    (s.handleSend p result).view.Sound := by
  unfold handleSend
  split_ifs with hresult
  · exact sound_close h le_rfl
  cases hcons : (s.ctx p).outQueue with
  | nil => exact absurd hcons hq
  | cons front rest =>
    simp only
    split_ifs with hdone hresume
    · rw [ctx_modify] at hresume
      have hu := h.resumed hcons hresume.1
      have hfd : (((s.modify p
          (fun ctx => { ctx with
            outQueue := rest, written := 0, pendingReqs := ctx.pendingReqs - 1 })).modify p
          (fun ctx => { ctx with readPaused := false })).ctx p).fd = (s.ctx p).fd := by
        rw [ctx_modify, ctx_modify]
      rw [← hfd]
      generalize hu' : Reactor.modify _ p (fun ctx => { ctx with readPaused := false }) = u at *
      replace hu : u.view.Owing p 1 1 := hu' ▸ hu
      cases hrecv : u.submitRecv (u.ctx p).fd with
      | none => exact sound_close hu (by norm_num)
      | some t => exact sound_continueSend (owing_submitRecv hu hrecv)
    · apply sound_continueSend
      rw [ctx_modify] at hresume
      apply h.popped hcons (fun ctx => ctx.pendingReqs - 1)
      exact fun hpaused => not_lt.mp (fun hlt => hresume ⟨hpaused, hlt⟩)
    · apply sound_continueSend
      exact h.sent hcons (not_le.mp hdone)

lemma sound_deliverResponse {connId : UInt64} {data : Wire.Bytes} (h : s.view.Sound)
    (hdata : data ≠ []) :
    (s.deliverResponse fd connId data).view.Sound := by
  unfold deliverResponse
  cases hfind : s.find fd with
  | none => exact h
  | some p =>
    obtain ⟨ha, hfd⟩ := h.active_of_find hfind
    simp only [ctx_modify]
    split_ifs with hid hsending
    · exact h
    · exact (ha.push hdata h hsending).sound
    · have hs : (s.ctx p).sending = false := by simpa using hsending
      apply sound_orClose
      · exact hfd ▸ ha.push_close h hs
      · intro t ht
        have hempty : (s.ctx p).outQueue = [] := by
          by_contra hne
          exact hsending (ha.queued.mpr hne)
        have howing := ha.push_first hdata h hs
        have hq :
            ((s.modify p (fun ctx => { ctx with outQueue := ctx.outQueue ++ [data] })).ctx
              p).outQueue = [data] := by
          rw [ctx_modify, hempty]
          rfl
        have hfind' : (s.modify p (fun ctx => { ctx with outQueue := ctx.outQueue ++ [data] })).find
            fd = some p := hfind
        rw [submitSend_view hfind' hq ht]
        apply (howing.submitSend _).sound
        rw [View.modify_ctx_self, View.modify_ctx_self]
        simp

lemma sound_resume {c : Coro} (h : s.view.Sound) : (s.resume c).view.Sound := by
  unfold resume
  split_ifs with hframe
  · exact h
  · exact sound_deliverResponse h hframe

lemma sound_handleNotify (h : s.view.Sound) : s.handleNotify.view.Sound := by
  unfold handleNotify
  have hempty : ({ s with readyCoros := [] } : Reactor).view.Sound := h
  generalize ({ s with readyCoros := [] } : Reactor) = u at hempty
  induction s.readyCoros generalizing u with
  | nil => exact hempty
  | cons c rest ih => exact ih _ (sound_resume hempty)

lemma sound_handleAccept {result : ℤ} (h : s.view.Sound)
    (hnew : 0 ≤ result → s.find result.toNat = none ∧
    s.files result.toNat ≠ none ∧
    result.toNat ∉ s.view.arrivals) : (s.handleAccept result).view.Sound := by
  unfold handleAccept
  split_ifs with hresult
  · rw [view_retryAccept]
    exact h
  · obtain ⟨hfree, hopen, harr⟩ := hnew (not_lt.mp hresult)
    have hacquired : (s.acquire result.toNat).view.Owing s.mgr.idle.1 1 0 :=
      h.acquire hfree hopen harr
    have hfd : ((s.acquire result.toNat).ctx s.mgr.idle.1).fd = result.toNat :=
      congrArg ConnectionContext.fd (View.acquire_ctx (v := s.view))
    rw [view_retryAccept]
    have hrearmed := sound_rearm hacquired
    rw [hfd] at hrearmed
    exact hrearmed

section completion

variable {e : Cqe} {rest : List Cqe} (hcq : s.cq = e :: rest)
include hcq

lemma tags_pop : s.tags.Perm ((e.ctx, e.op) :: ({ s with cq := rest } : Reactor).tags) := by
  simp only [tags, hcq, List.map_cons]
  exact List.perm_middle

lemma placed (h : s.view.Sound) : misplaced (e.ctx, e.op) = false := by
  have hkinds : s.tags.countP misplaced = 0 := h.world.kinds
  rw [List.countP_eq_zero] at hkinds
  simpa using hkinds _ ((tags_pop hcq).mem_iff.mpr List.mem_cons_self)

lemma view_pop_none (h : s.view.Sound) (hctx : e.ctx = none) :
    ({ s with cq := rest } : Reactor).view =
    { s.view with arrivals := rest.filterMap Cqe.arrival } := by
  have hplaced := placed hcq h
  have hout : ∀ q op, s.tags.count (some q, op) = ({ s with cq := rest } : Reactor).tags.count
      (some q, op) := by
    intro q op
    simp [(tags_pop hcq).count_eq, hctx]
  have hstray : s.tags.countP misplaced = ({ s with cq := rest } : Reactor).tags.countP
      misplaced := by
    simp [(tags_pop hcq).countP_eq, hplaced]
  simp only [view, hout, hstray]

lemma sound_pop_none (h : s.view.Sound) (hctx : e.ctx = none) :
    ({ s with cq := rest } : Reactor).view.Sound := by
  have hsub : (rest.filterMap Cqe.arrival).Sublist s.view.arrivals := by
    simp only [view, hcq]
    exact (List.sublist_cons_self e rest).filterMap _
  rw [view_pop_none hcq h hctx]
  exact h.handled hsub

lemma view_pop {p : ℕ} (h : s.view.Sound) (hctx : e.ctx = some p) :
    ({ s with cq := rest, mgr := (s.mgr.onComplete p).2 } : Reactor).view =
      s.view.complete p e.op := by
  have hplaced := placed hcq h
  have htags := tags_pop hcq
  have hout : (fun q op => ({ s with cq := rest } : Reactor).tags.count (some q, op)) =
      (s.view.complete p e.op).out := by
    funext q op
    by_cases hq : q = p
    · subst hq
      rw [View.complete_out]
      by_cases hop : op = e.op
      · simp [hop, view, htags.count_eq, hctx]
      · simp [hop, view, htags.count_eq, hctx, Ne.symm hop]
    · simp [View.complete, view, htags.count_eq, hctx, hq, Ne.symm hq]
  have hstray : s.tags.countP misplaced = ({ s with cq := rest } : Reactor).tags.countP
      misplaced := by
    simp [htags.countP_eq, hplaced]
  have harr : s.cq.filterMap Cqe.arrival = rest.filterMap Cqe.arrival := by
    rw [hcq]
    rw [hctx] at hplaced
    have hnone : e.arrival = none := by
      cases hop : e.op <;> simp_all [Cqe.arrival, misplaced]
    simp [hnone]
  exact View.ext rfl rfl hout harr.symm hstray.symm rfl

end completion

lemma tags_complete {o : Op} {i : ℕ} (result : ℤ) (data : Wire.Bytes) (hi : s.ops[i]? = some o) :
    (s.complete i result data).tags.Perm s.tags := by
  obtain ⟨hlt, rfl⟩ := List.getElem?_eq_some_iff.mp hi
  have hperm := (List.getElem_cons_eraseIdx_perm hlt).map (fun o : Op => (o.sqe.ctx, o.sqe.op))
  simp only [tags, complete, hi, List.perm_iff_count, List.count_append, List.map_append,
    List.map_cons, List.map_nil]
  intro tag
  have hcount := hperm.count_eq tag
  rw [List.map_cons, List.count_cons] at hcount
  rw [List.count_singleton]
  omega

lemma view_complete {o : Op} {i : ℕ} {result : ℤ} {data : Wire.Bytes} (hi : s.ops[i]? = some o)
    (hop : o.sqe.op = .accept → result < 0) : (s.complete i result data).view = s.view := by
  have htags := tags_complete result data hi
  simp only [complete, hi] at htags ⊢
  refine view_of_perm rfl rfl htags ?_ rfl
  have hnone : (⟨o.sqe.op, o.sqe.ctx, result, data⟩ : Cqe).arrival = none := by
    simp only [Cqe.arrival, ite_eq_right_iff]
    rintro ⟨ha, hr⟩
    exact absurd (hop ha) (not_lt.mpr hr)
  simp [hnone]

lemma view_acceptDone {o : Op} {i : ℕ} (hi : s.ops[i]? = some o) (hop : o.sqe.op = .accept) :
    ({ s.complete i fd [] with
      files := Function.update s.files fd (some s.accepts),
      accepts := s.accepts + 1 } : Reactor).view =
      s.view.arrive fd s.accepts := by
  have htags := tags_complete fd [] hi
  simp only [complete, hi] at htags ⊢
  have harr : (⟨o.sqe.op, o.sqe.ctx, fd, []⟩ : Cqe).arrival = some fd := by simp [Cqe.arrival, hop]
  apply View.ext
  · rfl
  · rfl
  · funext q op
    exact htags.count_eq _
  · simp [view, View.arrive, harr]
  · exact htags.countP_eq _
  · rfl

lemma copyOut_pop (e : Cqe) (rest : List Cqe) :
    ({ s with cq := rest } : Reactor).copyOut e p = { s.copyOut e p with cq := rest } := by
  unfold copyOut
  have hctx : ({ s with cq := rest } : Reactor).ctx p = s.ctx p := rfl
  rw [hctx]
  by_cases hc : e.op = .recv ∧ 0 < e.result ∧ (s.ctx p).closing = false
  · rw [if_pos hc, if_pos hc]
    rfl
  · rw [if_neg hc, if_neg hc]

lemma copyOut_cq (e : Cqe) : (s.copyOut e p).cq = s.cq := by
  simp only [copyOut, modify]
  split_ifs <;> rfl

lemma sound_copyOut (e : Cqe) (h : s.view.Sound) : (s.copyOut e p).view.Sound := by
  unfold copyOut
  split_ifs
  · exact h.copyIn (fun ctx => ctx.input ++ e.data)
  · exact h

lemma sound_entered {e : Cqe} {rest : List Cqe} (h : s.view.Sound) (hcq : s.cq = e :: rest)
    (hctx : e.ctx = some p) :
    (∃ t, ({ s with cq := rest } : Reactor).entered e p = some t ∧
      t.view.Owing p (if e.op = .recv then 1 else 0) (if e.op = .send then 1 else 0) ∧
      (e.op = .send → (t.ctx p).outQueue ≠ [])) ∨
    ({ s with cq := rest } : Reactor).entered e p = none ∧
      ({ ({ s with cq := rest } : Reactor).copyOut e p with
        mgr := ((({ s with cq := rest } : Reactor).copyOut e p).mgr.onComplete p).2 } :
          Reactor).view.Sound := by
  have hplaced := placed hcq h
  have hu := sound_copyOut (p := p) e h
  have hucq : (s.copyOut e p).cq = e :: rest := (copyOut_cq e).trans hcq
  unfold entered
  rw [copyOut_pop]
  generalize s.copyOut e p = u at hu hucq
  have hop : e.op = .recv ∨ e.op = .send := by
    rw [hctx] at hplaced
    cases hop : e.op <;> simp_all [misplaced]
  have hout : u.view.out p e.op ≠ 0 := by
    have hcount := (tags_pop hucq).count_eq (some p, e.op)
    rw [hctx, List.count_cons_self] at hcount
    exact ne_of_eq_of_ne hcount (Nat.succ_ne_zero _)
  have hview := view_pop hucq hu hctx
  have hc := hu.complete hop hout
  rw [← hview] at hc
  rcases hc with ⟨hfalse, ha, howing⟩ | ⟨htrue, _, hsound⟩
  · refine .inl ⟨_, if_neg (ne_true_of_eq_false hfalse), howing, fun hsend => ?_⟩
    have hctx' := View.complete_ctx (v := u.view) (p := p) e.op
    rw [← hview] at hctx'
    have hnow := congrFun hctx' p
    rw [Function.update_self] at hnow
    rw [hsend, ha.sends.armed] at hout
    have hsending : (u.ctx p).sending = true := by
      by_contra hoff
      exact hout (if_neg hoff)
    exact (congrArg ConnectionContext.outQueue hnow).trans_ne (ha.queued.mp hsending)
  · exact .inr ⟨if_pos htrue, hsound⟩

lemma sound_handleCqe {e : Cqe} {rest : List Cqe} (h : s.view.Sound) (hcq : s.cq = e :: rest) :
    (({ s with cq := rest } : Reactor).handleCqe D e).view.Sound := by
  have hplaced := placed hcq h
  unfold handleCqe
  cases hctx : e.ctx with
  | none =>
    have hsound := sound_pop_none hcq h hctx
    rw [hctx] at hplaced
    simp only [handler]
    cases hop : e.op with
    | accept =>
      refine sound_handleAccept hsound (fun hresult => ?_)
      have harr : s.view.arrivals = e.result.toNat :: rest.filterMap Cqe.arrival := by
        have hsome : e.arrival = some e.result.toNat := if_pos ⟨hop, hresult⟩
        simp [view, hcq, hsome]
      have hfd := h.world.arrived e.result.toNat (by simp [harr])
      have hapart := h.world.apart
      rw [harr, List.nodup_cons] at hapart
      exact ⟨hfd.1, hfd.2, hapart.1⟩
    | notify =>
      simp only [view_retryNotify]
      exact sound_handleNotify hsound
    | recv => simp [misplaced, hop] at hplaced
    | send => simp [misplaced, hop] at hplaced
  | some p =>
    rw [hctx] at hplaced
    rcases sound_entered h hcq hctx with ⟨t, ht, howing, hq⟩ | ⟨hnone, hsound⟩
    · simp only [ht, handler, hctx]
      cases hop : e.op with
      | accept => simp [misplaced, hop] at hplaced
      | notify => simp [misplaced, hop] at hplaced
      | recv =>
        rw [hop] at howing
        exact sound_handleRecv howing
      | send =>
        rw [hop] at howing
        exact sound_handleSend howing (hq hop)
    · simp only [hnone]
      exact hsound

lemma step_cases {a : Action} (hs : s.step D a = some t) : s.Enabled a ∧ t = s.effect D a := by
  unfold step at hs
  split_ifs at hs with h
  exact ⟨h, (Option.some.inj hs).symm⟩

lemma Sound.step {a : Action} (h : s.view.Sound) (hs : s.step D a = some t) : t.view.Sound := by
  obtain ⟨hen, rfl⟩ := step_cases hs
  cases a with
  | enter n =>
    have hview : (s.effect D (.enter n)).view = s.view := view_handOver n
    rw [hview]
    exact h
  | interrupted => exact h
  | wake =>
    have hview : (s.effect D .wake).view = s.view := view_retryDeferred
    rw [hview]
    exact h
  | handle =>
    cases hcq : s.cq with
    | nil => exact absurd hcq hen.2
    | cons e rest =>
      simp only [effect, hcq]
      exact sound_handleCqe h hcq
  | loop => exact h
  | acceptDone i fd =>
    obtain ⟨⟨o, ho, hop, _⟩, hfree⟩ := hen
    have hview : (s.effect D (.acceptDone i fd)).view = s.view.arrive fd s.accepts :=
      view_acceptDone ho hop
    rw [hview]
    exact h.arrive hfree
  | recvDone i data =>
    obtain ⟨⟨o, ho, hop, hopen⟩, _⟩ := hen
    obtain ⟨k, hk⟩ := Option.ne_none_iff_exists'.mp (hopen (.inl rfl))
    have hsocket : (s.ops[i]?).bind Op.socket = some k := by
      rw [Option.mem_def.mp ho]
      exact hk
    have hview : (s.complete i data.length data).view = s.view := view_complete ho (by simp [hop])
    simp only [effect, hsocket]
    exact hview ▸ h
  | sendDone i n =>
    obtain ⟨⟨o, ho, hop, _⟩, _⟩ := hen
    have hview : (s.effect D (.sendDone i n)).view = s.view := view_complete ho (by simp [hop])
    rw [hview]
    exact h
  | notifyDone i =>
    obtain ⟨⟨o, ho, hop, _⟩, _⟩ := hen
    have hview : (s.effect D (.notifyDone i)).view = s.view := view_complete ho (by simp [hop])
    rw [hview]
    exact h
  | opFail i result =>
    obtain ⟨hin, _, haccept⟩ := hen
    obtain ⟨o, ho⟩ := Option.ne_none_iff_exists'.mp hin
    have hview : (s.effect D (.opFail i result)).view = s.view := view_complete ho (haccept o ho)
    rw [hview]
    exact h
  | workerDone i responseStr =>
    have hview : (s.effect D (.workerDone i responseStr)).view = s.view := by
      simp only [effect, workerDone]
      cases s.tasks[i]? <;> rfl
    rw [hview]
    exact h
  | eventfdWrite => exact h

lemma sound_listening : listening.view.Sound := by
  refine ⟨⟨?_, ?_, List.nodup_nil, nofun, List.nodup_nil, rfl, rfl⟩, nofun⟩
  · intro fd p hp
    cases hp
  · intro p _
    exact ⟨fun op => by simp [view, tags, listening], List.not_mem_nil⟩

lemma sound_run {as : List Action}
    (h : Library.Runs.Run (Reactor.step D) Library.Runs.Any listening as t) :
    t.view.Sound := h.invariant sound_listening (fun _ _ _ hi _ hs => Sound.step hi hs)

end Reactor

end KimRpc.Server
