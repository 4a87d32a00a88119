import KimRpc.Server.ContextClasses

/-! A turn of the event loop in terms of requests and responses. What is not calm in a turn
is the acquisition of a context, the dispatch of requests, the delivery of responses, or
the progress of a send. -/

namespace KimRpc.Server

def ConnectionContext.core (ctx : ConnectionContext) : ℕ × UInt64 × List Wire.Bytes × ℕ × ℤ :=
  (ctx.fd, ctx.connId, ctx.outQueue, ctx.written, ctx.pendingReqs)

def ConnectionContext.unsent (ctx : ConnectionContext) : Wire.Bytes :=
  (ctx.outQueue.headD []).drop ctx.written

def ConnectionContext.advance (ctx : ConnectionContext) (n : ℕ) : ConnectionContext :=
  if (ctx.outQueue.headD []).length ≤ ctx.written + n then
    { ctx with outQueue := ctx.outQueue.tail, written := 0, pendingReqs := ctx.pendingReqs - 1 }
  else { ctx with written := ctx.written + n }

namespace Reactor

variable (D : Decoding) (s t u : Reactor)

def notifies : ℕ := s.tags.count (none, .notify)

def target (h : Coro) : Option ℕ :=
  if h.frame = [] then none else (s.find h.fd).filter (fun p => (s.ctx p).connId = h.connId)

structure Steady : Prop where
  core : ∀ q, (t.ctx q).core = (s.ctx q).core
  find : ∀ fd p, t.find fd = some p → s.find fd = some p
  tasks : t.tasks = s.tasks
  dispatched : t.dispatched = s.dispatched
  readyCoros : t.readyCoros = s.readyCoros
  acquired : t.acquired = s.acquired

structure Calm : Prop extends Steady s t where
  ops : t.ops = s.ops
  cq : t.cq = s.cq
  pooled : ∀ q ∈ s.mgr.idlePool, q ∈ t.mgr.idlePool
  offered : ∀ e ∈ t.sq, e.op = .send → e ∈ s.sq ∨ ∃ q, e.ctx = some q ∧ e.data = (s.ctx q).unsent
  notifies : t.notifies = s.notifies
  notifyPending : t.notifyPending = s.notifyPending
  unwritten : t.unwritten = s.unwritten
  eventfd : t.eventfd = s.eventfd

variable {D s t u}

section steady

variable (h : Steady s t) (q : ℕ)
include h

lemma Steady.fd : (t.ctx q).fd = (s.ctx q).fd := congrArg Prod.fst (h.core q)

lemma Steady.connId : (t.ctx q).connId = (s.ctx q).connId := congrArg (fun c => c.2.1) (h.core q)

lemma Steady.outQueue :
    (t.ctx q).outQueue = (s.ctx q).outQueue := congrArg (fun c => c.2.2.1) (h.core q)

lemma Steady.written :
    (t.ctx q).written = (s.ctx q).written := congrArg (fun c => c.2.2.2.1) (h.core q)

lemma Steady.pendingReqs :
    (t.ctx q).pendingReqs = (s.ctx q).pendingReqs := congrArg (fun c => c.2.2.2.2) (h.core q)

lemma Steady.unsent : (t.ctx q).unsent = (s.ctx q).unsent := by
  rw [ConnectionContext.unsent, h.outQueue, h.written, ConnectionContext.unsent]

lemma Steady.trans (h' : Steady t u) : Steady s u where
  core q := (h'.core q).trans (h.core q)
  find fd p hp := h.find fd p (h'.find fd p hp)
  tasks := h'.tasks.trans h.tasks
  dispatched := h'.dispatched.trans h.dispatched
  readyCoros := h'.readyCoros.trans h.readyCoros
  acquired := h'.acquired.trans h.acquired

end steady

lemma Steady.of_mgr (hmgr : t.mgr = s.mgr) (htasks : t.tasks = s.tasks)
    (hd : t.dispatched = s.dispatched)
    (hready : t.readyCoros = s.readyCoros) (ha : t.acquired = s.acquired) : Steady s t := by
  refine ⟨fun q => ?_, fun fd p h => ?_, htasks, hd, hready, ha⟩
  · rw [ctx, hmgr, ctx]
  · rw [Reactor.find, hmgr] at h
    exact h

variable {fd p : ℕ}

lemma Calm.refl (s : Reactor) : Calm s s :=
  ⟨.of_mgr rfl rfl rfl rfl rfl, rfl, rfl, fun _ h => h, fun _ h _ => .inl h, rfl, rfl, rfl, rfl⟩

lemma Calm.trans (h : Calm s t) (h' : Calm t u) : Calm s u where
  toSteady := h.toSteady.trans h'.toSteady
  ops := h'.ops.trans h.ops
  cq := h'.cq.trans h.cq
  pooled q hq := h'.pooled q (h.pooled q hq)
  offered e he hop := by
    rcases h'.offered e he hop with hold | ⟨q, hctx, hdata⟩
    · exact h.offered e hold hop
    · exact .inr ⟨q, hctx, hdata.trans (h.unsent q)⟩
  notifies := h'.notifies.trans h.notifies
  notifyPending := h'.notifyPending.trans h.notifyPending
  unwritten := h'.unwritten.trans h.unwritten
  eventfd := h'.eventfd.trans h.eventfd

lemma calm_contexts {m : ConnectionManager} (hcore : ∀ q, (m.contexts q).core = (s.ctx q).core)
    (hfind : ∀ fd p, m.find fd = some p → s.find fd = some p)
    (hpool : ∀ q ∈ s.mgr.idlePool, q ∈ m.idlePool) :
    Calm s { s with mgr := m } :=
  { Calm.refl s with core := hcore, find := hfind, pooled := hpool }

lemma calm_modify {f : ConnectionContext → ConnectionContext}
    (hf : ∀ ctx, (f ctx).core = ctx.core) :
    Calm s (s.modify p f) := by
  refine calm_contexts (fun q => ?_) (fun _ _ h => h) (fun _ h => h)
  have hq : (s.mgr.modify p f).contexts q = (s.modify p f).ctx q := rfl
  rw [hq, ctx_modify_apply]
  split_ifs
  · exact hf _
  · rfl

lemma calm_submit {e : Sqe} (hnotify : e.op ≠ .notify)
    (hsend : e.op = .send → ∃ q, e.ctx = some q ∧ e.data = (s.ctx q).unsent)
    (h : s.submit e = some t) :
    Calm s t := by
  have hcount : t.notifies = s.notifies := by
    rw [notifies, (tags_submit h).count_eq, List.count_cons_of_ne (by simp [hnotify]), notifies]
  cases submit_eq h
  refine { Calm.refl s with offered := fun e' he' hop => ?_, notifies := hcount }
  rcases List.mem_append.mp he' with hold | hnew
  · exact .inl hold
  · rw [List.mem_singleton] at hnew
    subst hnew
    exact .inr (hsend hop)

lemma calm_onSubmit : Calm s (s.onSubmit p) := calm_modify (fun _ => rfl)

lemma calm_close : Calm s (s.close fd) := by
  unfold close
  cases hfind : s.find fd with
  | none => exact Calm.refl s
  | some p =>
    have hcalm : Calm s { s with mgr := s.mgr.close fd } := by
      have hmgr := ConnectionManager.close_of_find hfind
      refine calm_contexts (fun q => ?_) (fun fd' q h => ?_) (fun q hq => ?_)
      · rw [hmgr]
        by_cases hq : q = p
        · subst hq
          simp [ctx, ConnectionContext.core]
        · simp [ctx, hq]
      · rw [hmgr] at h
        simp only [ConnectionManager.find, Function.update_apply] at h
        split_ifs at h
        exact h
      · rw [hmgr]
        simp only
        split_ifs
        · exact List.mem_cons_of_mem p hq
        · exact hq
    exact { hcalm with }

lemma calm_orClose {submitted : Option Reactor} (h : ∀ t, submitted = some t → Calm s t) :
    Calm s (s.orClose fd submitted) := by
  cases submitted with
  | none => exact calm_close
  | some t => exact h t rfl

lemma calm_submitRecv (h : s.submitRecv fd = some t) : Calm s t := by
  unfold submitRecv at h
  cases hfind : s.find fd with
  | none => simp [hfind] at h
  | some p =>
    simp only [hfind, Option.map_eq_some_iff] at h
    obtain ⟨u, hu, rfl⟩ := h
    exact (calm_submit (by simp) (by simp) hu).trans calm_onSubmit

lemma calm_submitSend (h : s.submitSend fd = some t) : Calm s t := by
  unfold submitSend at h
  cases hfind : s.find fd with
  | none => simp [hfind] at h
  | some p =>
    cases hq : (s.ctx p).outQueue with
    | nil =>
      simp only [hfind, hq, Option.some.injEq] at h
      subst h
      exact calm_modify (fun _ => rfl)
    | cons front rest =>
      simp only [hfind, hq, Option.map_eq_some_iff] at h
      obtain ⟨u, hu, rfl⟩ := h
      have hsubmit : Calm s u := by
        refine calm_submit (by simp) (fun _ => ⟨p, rfl, ?_⟩) hu
        rw [ConnectionContext.unsent, hq, List.headD_cons]
      exact (hsubmit.trans calm_onSubmit).trans (calm_modify (fun _ => rfl))

lemma calm_continueSend : Calm s (s.continueSend p) := by
  unfold continueSend
  split_ifs
  · exact calm_modify (fun _ => rfl)
  · exact calm_orClose (fun _ h => calm_submitSend h)

lemma calm_retryAccept : Calm s s.retryAccept := by
  unfold retryAccept submitAccept
  cases h : s.submit ⟨.accept, 0, none, [], 0⟩ with
  | none => exact { Calm.refl s with }
  | some t => exact calm_submit (by simp) (by simp) h

lemma calm_copyOut (e : Cqe) : Calm s (s.copyOut e p) := by
  have hcopied : Calm s (s.modify p (fun ctx => { ctx with input := ctx.input ++ e.data })) :=
    calm_modify (fun _ => rfl)
  unfold copyOut
  split_ifs
  · exact { hcopied with }
  · exact Calm.refl s

lemma calm_onComplete : Calm s { s with mgr := (s.mgr.onComplete p).2 } := by
  rw [ConnectionManager.onComplete_eq]
  refine calm_contexts (fun q => ?_) (fun _ _ h => h) (fun q hq => ?_)
  · by_cases hq : q = p
    · subst hq
      simp [ctx, ConnectionContext.core]
    · simp [ctx, hq]
  · simp only
    split_ifs
    · exact List.mem_cons_of_mem p hq
    · exact hq

lemma sq_copyOut (e : Cqe) : (s.copyOut e p).sq = s.sq := by
  simp only [copyOut, modify]
  split_ifs <;> rfl

lemma ctx_dispatch_apply (requests : List Wire.Request) (q : ℕ) : (s.dispatch p requests).ctx q =
    if q = p then { s.ctx q with pendingReqs := (s.ctx q).pendingReqs + requests.length }
      else s.ctx q :=
  ctx_modify_apply (fun ctx => { ctx with pendingReqs := ctx.pendingReqs + requests.length }) q

lemma names_dispatch (requests : List Wire.Request) (q : ℕ) :
    ((s.dispatch p requests).ctx q).fd = (s.ctx q).fd ∧
    ((s.dispatch p requests).ctx q).connId = (s.ctx q).connId := by
  rw [ctx_dispatch_apply]
  split_ifs <;> exact ⟨rfl, rfl⟩

lemma names_advance (n q : ℕ) : ((s.modify p (fun ctx => ctx.advance n)).ctx q).fd = (s.ctx q).fd ∧
    ((s.modify p (fun ctx => ctx.advance n)).ctx q).connId = (s.ctx q).connId := by
  rw [ctx_modify_apply]
  unfold ConnectionContext.advance
  split_ifs <;> exact ⟨rfl, rfl⟩

variable (s fd) in
lemma ctx_acquire : (s.acquire fd).ctx s.mgr.idle.1 =
    { (s.ctx s.mgr.idle.1).reset fd with connId := s.mgr.nextId, socket := (s.files fd).getD 0 } :=
  View.acquire_ctx (v := s.view)

lemma ctx_acquire_ne (hp : p ≠ s.mgr.idle.1) : (s.acquire fd).ctx p = s.ctx p := by
  simp only [acquire, ctx, ConnectionManager.acquire_eq]
  exact Function.update_of_ne hp _ _

section entered

variable {e : Cqe} (h : s.entered e p = some t)
include h

lemma entered_eq : t = { s.copyOut e p with mgr := ((s.copyOut e p).mgr.onComplete p).2 } := by
  simp only [entered] at h
  split_ifs at h
  exact (Option.some.inj h).symm

lemma entered_sq : t.sq = s.sq := by
  rw [entered_eq h]
  exact sq_copyOut e

lemma calm_entered : Calm s t := by
  rw [entered_eq h]
  exact (calm_copyOut e).trans calm_onComplete

lemma entered_ctx :
    t.ctx p = { (s.copyOut e p).ctx p with inflight := ((s.copyOut e p).ctx p).inflight - 1 } := by
  rw [entered_eq h, ConnectionManager.onComplete_eq]
  exact Function.update_self ..

lemma entered_find (fd : ℕ) : t.find fd = s.find fd := by
  rw [entered_eq h, ConnectionManager.onComplete_eq]
  simp only [find, copyOut, ConnectionManager.find]
  split_ifs <;> rfl

lemma calm_entered_modify (f : ConnectionContext → ConnectionContext)
    (hf : ∀ c c', c'.core = c.core → (f c').core = (f c).core) : Calm (s.modify p f)
    (t.modify p f) := by
  have hcalm := calm_entered h
  have hsq := entered_sq h
  refine { hcalm with core := fun q => ?_, offered := fun e he _ => .inl ?_ }
  · rw [ctx_modify_apply, ctx_modify_apply]
    split_ifs
    · exact hf _ _ (hcalm.core q)
    · exact hcalm.core q
  · have he' : e ∈ t.sq := he
    rw [hsq] at he'
    exact he'

lemma calm_entered_dispatch (requests : List Wire.Request) :
    Calm (s.dispatch p requests) (t.dispatch p requests) := by
  have hcalm := calm_entered h
  have hmodified :
      Calm (s.modify p (fun ctx => { ctx with pendingReqs := ctx.pendingReqs + requests.length }))
      (t.modify p (fun ctx => { ctx with pendingReqs := ctx.pendingReqs + requests.length })) := by
    apply calm_entered_modify h
    intro c c' hc
    simp only [ConnectionContext.core, Prod.mk.injEq] at hc ⊢
    obtain ⟨hfd, hid, hq, hw, hp⟩ := hc
    exact ⟨hfd, hid, hq, hw, by rw [hp]⟩
  refine { hmodified with tasks := ?_, dispatched := ?_ }
  · simp only [dispatch, hcalm.fd, hcalm.connId, hcalm.tasks, hcalm.dispatched]
  · simp only [dispatch, hcalm.dispatched]

end entered

lemma calm_handleRecv {result : ℤ} (hclosing : (s.ctx p).closing = false) (hresult : 0 < result) :
    Calm (s.dispatch p (D.uringDecoder.drain (s.ctx p).input).1) (s.handleRecv D p result) := by
  unfold handleRecv
  simp only [hclosing, Bool.false_eq_true, ↓reduceIte, not_le.mpr hresult]
  cases hdrain : D.uringDecoder.drain (s.ctx p).input with | mk requests status =>
  cases status with
  | stopped => exact calm_close
  | pending rest =>
    have hread : Calm (s.dispatch p requests)
        ((s.dispatch p requests).modify p (fun ctx => { ctx with input := rest })) :=
      calm_modify (fun _ => rfl)
    simp only
    split_ifs
    · exact hread.trans (calm_modify (fun _ => rfl))
    · exact hread.trans (calm_orClose (fun _ h => calm_submitRecv h))

lemma calm_handleRecv_failed {result : ℤ} (hresult : result ≤ 0) :
    Calm s (s.handleRecv D p result) := by
  unfold handleRecv
  simp only [hresult, ↓reduceIte]
  split_ifs
  · exact Calm.refl s
  · exact calm_orClose (fun _ h => calm_submitRecv h)
  · exact calm_close

lemma calm_handleSend {result : ℤ} (hq : (s.ctx p).outQueue ≠ []) (hresult : 0 < result) :
    Calm (s.modify p (fun ctx => ctx.advance result.toNat)) (s.handleSend p result) := by
  obtain ⟨front, rest, hcons⟩ := List.exists_cons_of_ne_nil hq
  unfold handleSend
  simp only [not_le.mpr hresult, ↓reduceIte, hcons]
  have hadvance : ∀ f : ConnectionContext → ConnectionContext,
      f (s.ctx p) = (s.ctx p).advance result.toNat →
        s.modify p f = s.modify p (fun ctx => ctx.advance result.toNat) := by
    intro f hf
    simp only [modify, ConnectionManager.modify]
    rw [show f (s.mgr.contexts p) = (s.mgr.contexts p).advance result.toNat from hf]
  split_ifs with hdone hresume
  · rw [← hadvance (fun ctx => { ctx with
      outQueue := rest, written := 0, pendingReqs := ctx.pendingReqs - 1 })
      (by simp [ConnectionContext.advance, hcons, hdone])]
    have hresumed : Calm (s.modify p (fun ctx =>
          { ctx with outQueue := rest, written := 0, pendingReqs := ctx.pendingReqs - 1 }))
        ((s.modify p (fun ctx =>
          { ctx with outQueue := rest, written := 0, pendingReqs := ctx.pendingReqs - 1 })).modify p
            (fun ctx => { ctx with readPaused := false })) := calm_modify (fun _ => rfl)
    generalize Reactor.modify _ p (fun ctx => { ctx with readPaused := false }) = u at *
    cases hrecv : u.submitRecv (s.ctx p).fd with
    | none => exact hresumed.trans calm_close
    | some t => exact (hresumed.trans (calm_submitRecv hrecv)).trans calm_continueSend
  · rw [← hadvance (fun ctx => { ctx with
      outQueue := rest, written := 0, pendingReqs := ctx.pendingReqs - 1 })
      (by simp [ConnectionContext.advance, hcons, hdone])]
    exact calm_continueSend
  · rw [← hadvance (fun ctx => { ctx with written := (s.ctx p).written + result.toNat })
      (by simp [ConnectionContext.advance, hcons, hdone])]
    exact calm_continueSend

lemma calm_handleSend_failed {result : ℤ} (hresult : result ≤ 0) :
    Calm s (s.handleSend p result) := by
  unfold handleSend
  simp only [hresult, ↓reduceIte]
  exact calm_close

inductive Turn (e : Cqe) : Prop
  | calm (hctx : ∀ p, e.ctx = some p → e.op = .send → (0 < e.result → p ∈ t.mgr.idlePool) ∧
      ∀ fd, t.find fd ≠ some p)
      (haccept : e.op = .accept → e.result < 0) (hnotify : e.op ≠ .notify) (h : Calm s t)
  | accepted (hop : e.op = .accept) (hresult : 0 ≤ e.result) (h : Calm (s.acquire e.result.toNat) t)
  | notified (hop : e.op = .notify) (h : t = s.handleNotify.retryNotify)
  | read (p : ℕ) (hop : e.op = .recv) (hctx : e.ctx = some p)
      (hmapped : s.find (s.ctx p).fd = some p)
      (h : Calm (s.dispatch p (D.uringDecoder.drain ((s.copyOut e p).ctx p).input).1) t)
  | sent (p : ℕ) (hop : e.op = .send) (hctx : e.ctx = some p)
      (hmapped : s.find (s.ctx p).fd = some p)
      (hresult : 0 < e.result) (hq : (s.ctx p).outQueue ≠ [])
      (h : Calm (s.modify p (fun ctx => ctx.advance e.result.toNat)) t)

lemma find_close_ne (h : s.view.World) (fd : ℕ) : (s.close (s.ctx p).fd).find fd ≠ some p := by
  have hfind : (s.close (s.ctx p).fd).find fd = if fd = (s.ctx p).fd then none else s.find fd := by
    have hclose : (s.close (s.ctx p).fd).view = s.view.close (s.ctx p).fd := view_close
    have hview := congrArg (fun v => v.find fd) hclose
    exact hview.trans (View.close_find fd)
  rw [hfind]
  split_ifs with hfd
  · exact nofun
  · intro hp
    exact hfd (h.maps fd p hp).2.symm

lemma find_pooled_ne (h : s.view.Sound) (hp : p ∈ s.mgr.idlePool) : s.find fd ≠ some p := by
  intro hfind
  exact (h.active_of_find hfind).1.serving.unpooled hp

lemma ctx_of_notify {e : Cqe} {rest : List Cqe} (hs : s.view.Sound) (hcq : s.cq = e :: rest)
    (hop : e.op = .notify) :
    e.ctx = none := by
  have hplaced := placed hcq hs
  rw [hop] at hplaced
  cases hctx : e.ctx with
  | none => rfl
  | some q => simp [hctx, misplaced] at hplaced

lemma turn_handleCqe {e : Cqe} {rest : List Cqe} (h : s.view.Sound) (hcq : s.cq = e :: rest) :
    Turn (D := D) (s := { s with cq := rest })
      (t := ({ s with cq := rest } : Reactor).handleCqe D e) e := by
  have hplaced := placed hcq h
  unfold handleCqe
  cases hctx : e.ctx with
  | none =>
    rw [hctx] at hplaced
    simp only [handler]
    cases hop : e.op with
    | accept =>
      by_cases hresult : e.result < 0
      · refine .calm (by simp [hctx]) (fun _ => hresult) (by simp [hop]) ?_
        simp only [handleAccept, hresult, ↓reduceIte]
        exact calm_retryAccept
      · refine .accepted hop (not_lt.mp hresult) ?_
        simp only [handleAccept, hresult, ↓reduceIte]
        exact (calm_orClose (fun _ h => calm_submitRecv h)).trans calm_retryAccept
    | notify => exact .notified hop rfl
    | recv => simp [misplaced, hop] at hplaced
    | send => simp [misplaced, hop] at hplaced
  | some p =>
    rw [hctx] at hplaced
    have hop : e.op = .recv ∨ e.op = .send := by
      cases hop : e.op <;> simp_all [misplaced]
    rcases sound_entered h hcq hctx with ⟨u, hu, howing, hqueue⟩ | ⟨hnone, hsound⟩
    · simp only [hu, handler, hctx]
      have hcalm := calm_entered hu
      have hmapped :
          ({ s with cq := rest } : Reactor).find (({ s with cq := rest } : Reactor).ctx p).fd =
            some p := by
        rw [← entered_find hu, ← hcalm.fd]
        exact howing.serving.mapped
      have hclosing : (u.ctx p).closing = false := howing.serving.closing
      rcases hop with hop | hop
      · simp only [hop]
        by_cases hresult : 0 < e.result
        · refine .read p hop hctx hmapped ?_
          have hinput :
              (u.ctx p).input = ((({ s with cq := rest } : Reactor).copyOut e p).ctx p).input := by
            rw [entered_ctx hu]
          rw [← hinput]
          exact (calm_entered_dispatch hu _).trans (calm_handleRecv hclosing hresult)
        · refine .calm (by simp [hop]) (by simp [hop]) (by simp [hop]) ?_
          exact hcalm.trans (calm_handleRecv_failed (not_lt.mp hresult))
      · simp only [hop]
        by_cases hresult : 0 < e.result
        · refine .sent p hop hctx hmapped hresult ?_ ?_
          · rw [← hcalm.outQueue]
            exact hqueue hop
          · refine (calm_entered_modify hu (fun ctx => ctx.advance e.result.toNat) ?_).trans
              (calm_handleSend (hqueue hop) hresult)
            intro c c' hc
            simp only [ConnectionContext.core, Prod.mk.injEq] at hc
            obtain ⟨hfd, hid, hq, hw, hp⟩ := hc
            simp only [ConnectionContext.advance, hq, hw, hp]
            split_ifs <;> simp [ConnectionContext.core, hfd, hid]
        · refine .calm (fun q hq _ => ⟨fun hpos => absurd hpos hresult, ?_⟩) (by simp [hop])
            (by simp [hop]) ?_
          · cases Option.some.inj (hctx.symm.trans hq)
            have hclosed : u.handleSend p e.result = u.close (u.ctx p).fd := by
              simp only [handleSend, not_lt.mp hresult, ↓reduceIte]
            rw [hclosed]
            exact find_close_ne howing.kept.world
          · exact hcalm.trans (calm_handleSend_failed (not_lt.mp hresult))
    · simp only [hnone]
      refine .calm ?_ ?_ ?_ ((calm_copyOut e).trans calm_onComplete)
      · intro q hq _
        cases Option.some.inj (hctx.symm.trans hq)
        have hrecycled : ((({ s with cq := rest } : Reactor).copyOut e p).mgr.onComplete p).1 =
            true := by
          by_contra hfalse
          simp [entered, hfalse] at hnone
        rw [ConnectionManager.onComplete_recycles, decide_eq_true_eq] at hrecycled
        have hpooled :
            p ∈ ((({ s with cq := rest } : Reactor).copyOut e p).mgr.onComplete p).2.idlePool := by
          rw [ConnectionManager.onComplete_eq]
          simp [hrecycled]
        exact ⟨fun _ => hpooled, fun fd => find_pooled_ne hsound hpooled⟩
      · rcases hop with hop | hop <;> simp [hop]
      · rcases hop with hop | hop <;> simp [hop]

lemma resume_of_none {c : Coro} (h : s.target c = none) : s.resume c = s := by
  unfold resume deliverResponse
  unfold target at h
  split_ifs at h ⊢ with hframe
  · rfl
  · cases hfind : s.find c.fd with
    | none => rfl
    | some p =>
      simp only [hfind, Option.filter_eq_none_iff, Option.some.injEq, decide_eq_true_eq,
        forall_eq'] at h
      simp only [ne_eq, h, not_false_eq_true, ↓reduceIte]

lemma target_find {c : Coro} (h : s.target c = some p) :
    c.frame ≠ [] ∧ s.find c.fd = some p ∧ (s.ctx p).connId = c.connId := by
  unfold target at h
  split_ifs at h with hframe
  rw [Option.filter_eq_some_iff, decide_eq_true_eq] at h
  exact ⟨hframe, h⟩

lemma calm_resume {c : Coro} (h : s.target c = some p) :
    Calm (s.modify p (fun ctx => { ctx with outQueue := ctx.outQueue ++ [c.frame] }))
      (s.resume c) := by
  obtain ⟨hframe, hfind, hid⟩ := target_find h
  unfold resume deliverResponse
  simp only [hframe, hfind, ne_eq, hid, not_true_eq_false, ↓reduceIte]
  split_ifs
  · exact Calm.refl _
  · exact calm_orClose (fun _ h => calm_submitSend h)

end Reactor

end KimRpc.Server
