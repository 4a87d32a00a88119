import KimRpc.Server.Pending
import KimRpc.Server.ReadLimits
import KimRpc.Server.ResponseStreams
import KimRpc.Server.Sockets

/-! What the server dispatches from a connection is what its decoder reads in all the
bytes that were appended to the input of that connection, whatever happens in between. -/

namespace KimRpc.Server

open Library.Runs Library.StreamDecoding Wire

def Journal.requests (g : Journal) (k : ℕ) : List Request :=
  (g.dispatches.filter (fun d => d.1.socket = k)).map (fun d => d.2.request)

namespace Reactor

variable (D : Decoding) (s t u : Reactor) (g g' : Journal) (p : ℕ)

structure Idles : Prop where
  input : ∀ q, (t.ctx q).input = (s.ctx q).input
  closing : ∀ q, (t.ctx q).closing = false → (s.ctx q).closing = false
  tasks : t.tasks = s.tasks

inductive Reads (e : Cqe) : Prop
  | accepted (hop : e.op = .accept) (hresult : 0 ≤ e.result)
      (hquiet : Quiet (s.acquire e.result.toNat) t)
      (h : Idles (s.acquire e.result.toNat) t)
  | nothing (haccept : e.arrival = none) (hquiet : Quiet s t) (h : Idles s t)
  | read (p : ℕ) (hop : e.op = .recv) (hctx : e.ctx = some p) (hfed : (s.copyOut e p).fed =
        Function.update s.fed (s.ctx p).socket (s.fed (s.ctx p).socket ++ e.data))
      (hquiet : Quiet (s.copyOut e p) t) (hopen : (s.ctx p).closing = false)
      (hothers : ∀ q ≠ p, (t.ctx q).input = (s.ctx q).input ∧
        ((t.ctx q).closing = false → (s.ctx q).closing = false))
      (hown : (t.ctx p).closing = false →
        (D.uringDecoder.drain ((s.ctx p).input ++ e.data)).2 = .pending (t.ctx p).input)
      (htasks : t.tasks = (s.dispatch p (D.uringDecoder.drain ((s.ctx p).input ++ e.data)).1).tasks)

def Fresh (k : ℕ) : Prop := s.accepts ≤ k ∨ s.Waiting k

structure Consumed : Prop where
  requests : ∀ k, g.requests k = (D.uringDecoder.drain (s.fed k)).1
  fresh : ∀ k, s.Fresh k → s.fed k = []
  leftover : ∀ p < s.mgr.allConns, (s.ctx p).closing = false →
    (D.uringDecoder.drain (s.fed (s.ctx p).socket)).2 = .pending (s.ctx p).input

variable {D s t u g g' p}

lemma Idles.of_calm (hs : Spares s t) (hc : t.tasks = s.tasks) : Idles s t :=
  ⟨fun q => (hs q).input, fun q => (hs q).closing, hc⟩

lemma Idles.trans (h : Idles s t) (h' : Idles t u) : Idles s u where
  input q := (h'.input q).trans (h.input q)
  closing q hq := h.closing q (h'.closing q hq)
  tasks := h'.tasks.trans h.tasks

lemma idles_modify {f : ConnectionContext → ConnectionContext}
    (hf : ∀ ctx, (f ctx).input = ctx.input ∧
    (f ctx).closing = ctx.closing) : Idles s (s.modify p f) := by
  refine ⟨fun q => ?_, fun q hq => ?_, rfl⟩
  · rw [ctx_modify_apply]
    split_ifs
    · exact (hf _).1
    · rfl
  · rw [ctx_modify_apply] at hq
    split_ifs at hq
    · exact (hf _).2.symm.trans hq
    · exact hq

lemma idles_continueSend : Idles s (s.continueSend p) :=
  .of_calm spares_continueSend calm_continueSend.tasks

lemma idles_handleSend {result : ℤ} : Idles s (s.handleSend p result) := by
  have hclose : ∀ (u : Reactor) fd, Idles u (u.close fd) :=
    fun u fd => .of_calm spares_close calm_close.tasks
  unfold handleSend
  split_ifs with hresult
  · exact hclose s _
  cases (s.ctx p).outQueue with
  | nil => exact .of_calm (spares_of_mgr rfl) rfl
  | cons front rest =>
    simp only
    split_ifs with hdone hresume
    · have hpopped : Idles s (s.modify p (fun ctx =>
          { ctx with outQueue := rest, written := 0, pendingReqs := ctx.pendingReqs - 1 })) :=
        idles_modify (fun _ => ⟨rfl, rfl⟩)
      have hresumed :=
        hpopped.trans (idles_modify (p := p) (f := fun ctx => { ctx with readPaused := false })
        (fun _ => ⟨rfl, rfl⟩))
      generalize Reactor.modify _ p (fun ctx => { ctx with readPaused := false }) = u at *
      cases hrecv : u.submitRecv (s.ctx p).fd with
      | none => exact hresumed.trans (hclose u _)
      | some t =>
        have harmed : Idles u t := .of_calm (spares_submitRecv hrecv) (calm_submitRecv hrecv).tasks
        exact (hresumed.trans harmed).trans idles_continueSend
    · refine Idles.trans ?_ idles_continueSend
      exact idles_modify (fun _ => ⟨rfl, rfl⟩)
    · refine Idles.trans ?_ idles_continueSend
      exact idles_modify (fun _ => ⟨rfl, rfl⟩)

lemma idles_handleRecv_failed {result : ℤ} (hresult : result ≤ 0) :
    Idles s (s.handleRecv D p result) :=
  .of_calm (spares_handleRecv_failed hresult) (calm_handleRecv_failed hresult).tasks

lemma idles_onComplete : Idles s { s with mgr := (s.mgr.onComplete p).2 } :=
  .of_calm spares_onComplete rfl

lemma idles_handleNotify : Idles s s.handleNotify :=
  .of_calm spares_handleNotify
    (parallel_foldl (s := { s with readyCoros := [] }) s.readyCoros).tasks

lemma handleRecv_leftover {result : ℤ} (hmapped : s.find (s.ctx p).fd = some p)
    (hclosing : (s.ctx p).closing = false)
    (hresult : 0 < result) :
    (∀ q ≠ p, ((s.handleRecv D p result).ctx q).input = (s.ctx q).input ∧
      (((s.handleRecv D p result).ctx q).closing = false → (s.ctx q).closing = false)) ∧
    (((s.handleRecv D p result).ctx p).closing = false →
      (D.uringDecoder.drain (s.ctx p).input).2 =
        .pending ((s.handleRecv D p result).ctx p).input) := by
  unfold handleRecv
  simp only [hclosing, Bool.false_eq_true, ↓reduceIte, not_le.mpr hresult]
  cases hdrain : D.uringDecoder.drain (s.ctx p).input with | mk requests status =>
  have hothers : ∀ q ≠ p, (s.dispatch p requests).ctx q = s.ctx q := by
    intro q hq
    rw [ctx_dispatch_apply, if_neg hq]
  cases status with
  | stopped =>
    have hmapped' : (s.dispatch p requests).find (s.ctx p).fd = some p := hmapped
    refine ⟨fun q hq => ?_, fun hopen => ?_⟩
    · simp only
      rw [ctx_close hmapped', if_neg hq, hothers q hq]
      exact ⟨rfl, id⟩
    · simp only at hopen
      rw [ctx_close hmapped', if_pos rfl] at hopen
      cases hopen
  | pending rest =>
    have hread : ∀ q, ((s.dispatch p requests).modify p (fun ctx => { ctx with input := rest })).ctx
        q =
        if q = p then { (s.dispatch p requests).ctx q with input := rest } else s.ctx q := by
      intro q
      rw [ctx_modify_apply]
      split_ifs with hq
      · rfl
      · exact hothers q hq
    simp only
    generalize (s.dispatch p requests).modify p (fun ctx => { ctx with input := rest }) = u at *
    have hkept : ∀ t, Spares u t → (∀ q ≠ p, (t.ctx q).input = (s.ctx q).input ∧
        ((t.ctx q).closing = false → (s.ctx q).closing = false)) ∧
          ((t.ctx p).closing = false → (Status.pending rest : Status UInt8) =
            .pending (t.ctx p).input) := by
      intro t ht
      refine ⟨fun q hq => ?_, fun _ => ?_⟩
      · have hspared := ht q
        rw [hread, if_neg hq] at hspared
        exact ⟨hspared.input, hspared.closing⟩
      · rw [(ht p).input, hread, if_pos rfl]
    split_ifs with hfull
    · refine ⟨fun q hq => ?_, fun _ => ?_⟩
      · rw [ctx_modify_apply, if_neg hq, hread, if_neg hq]
        exact ⟨rfl, id⟩
      · rw [ctx_modify, hread, if_pos rfl]
    · exact hkept _ (spares_orClose (fun _ ht => spares_submitRecv ht))

section turn

variable {e : Cqe} {rest : List Cqe} (hs : s.view.Sound) (hcq : s.cq = e :: rest)
include hs hcq

lemma reads_copied (hctx : e.ctx = some p) (hop : e.op = .recv) (hresult : 0 < e.result)
    (hopen : (s.ctx p).closing = false) :
    Reads D { s with cq := rest } (({ s with cq := rest } : Reactor).handleCqe D e) e := by
  have hcopy : ({ s with cq := rest } : Reactor).copyOut e p =
      { ({ s with cq := rest } : Reactor).modify p (fun ctx => { ctx with
        input := ctx.input ++ e.data }) with
        fed := Function.update s.fed (s.ctx p).socket (s.fed (s.ctx p).socket ++ e.data) } :=
    if_pos ⟨hop, hresult, hopen⟩
  have hinput : ∀ q, (({ s with cq := rest } : Reactor).copyOut e p).ctx q =
      if q = p then { s.ctx q with input := (s.ctx q).input ++ e.data } else s.ctx q := by
    intro q
    rw [hcopy]
    exact ctx_modify_apply (s := { s with cq := rest }) (fun ctx => { ctx with
      input := ctx.input ++ e.data }) q
  have hquiet : Quiet (({ s with cq := rest } : Reactor).copyOut e p)
      (({ s with cq := rest } : Reactor).handleCqe D e) := by
    cases starts_handleCqe (D := D) hs hcq with
    | accepted hop' => exact absurd (hop.symm.trans hop') (by decide)
    | plain hnone => exact absurd (hctx.symm.trans hnone) (by simp)
    | copied q hq hquiet =>
      cases Option.some.inj (hctx.symm.trans hq)
      exact hquiet
  rcases sound_entered hs hcq hctx with ⟨t, ht, howing, -⟩ | ⟨hnone, -⟩
  · have hturn : ({ s with cq := rest } : Reactor).handleCqe D e = t.handleRecv D p e.result := by
      unfold handleCqe
      simp only [hctx, ht, handler, hop]
    have hentered := idles_onComplete (s := ({ s with cq := rest } : Reactor).copyOut e p) (p := p)
    rw [← entered_eq ht] at hentered
    have hown : (t.ctx p).input = (s.ctx p).input ++ e.data := by
      rw [hentered.input, hinput, if_pos rfl]
    have hclosing : (t.ctx p).closing = false := howing.serving.closing
    obtain ⟨hothers, hleft⟩ := handleRecv_leftover (D := D) howing.serving.mapped hclosing hresult
    have htasks := (calm_handleRecv (D := D) hclosing hresult).tasks
    refine .read p hop hctx ?_ hquiet hopen (fun q hq => ?_) (fun hstill => ?_) ?_
    · rw [hcopy]
      rfl
    · obtain ⟨hsame, hmono⟩ := hothers q hq
      have hold : (({ s with cq := rest } : Reactor).copyOut e p).ctx q = s.ctx q := by
        rw [hinput, if_neg hq]
      rw [hturn, hsame, hentered.input, hold]
      refine ⟨rfl, fun hstill => ?_⟩
      have hbefore := hentered.closing q (hmono hstill)
      rw [hold] at hbefore
      exact hbefore
    · rw [hturn] at hstill ⊢
      have hrest := hleft hstill
      rw [hown] at hrest
      exact hrest
    · have hcalm := calm_entered ht
      rw [hturn, htasks, hown]
      simp only [dispatch, hcalm.fd, hcalm.connId, hcalm.tasks, hcalm.dispatched]
      rfl
  · -- a context is recycled only when it is closing
    have hrecycled : ((({ s with cq := rest } : Reactor).copyOut e p).mgr.onComplete p).1 =
        true := by
      by_contra hfalse
      simp [entered, hfalse] at hnone
    rw [ConnectionManager.onComplete_recycles, decide_eq_true_eq] at hrecycled
    have hsame : (({ s with cq := rest } : Reactor).copyOut e p).mgr.contexts p =
        { s.ctx p with input := (s.ctx p).input ++ e.data } := (hinput p).trans (if_pos rfl)
    have hclosing := hrecycled.1
    rw [hsame, hopen] at hclosing
    cases hclosing

lemma reads_handleCqe :
    Reads D { s with cq := rest } (({ s with cq := rest } : Reactor).handleCqe D e) e := by
  have hplaced := placed hcq hs
  cases hctx : e.ctx with
  | none =>
    rw [hctx] at hplaced
    cases hop : e.op with
    | recv => simp [misplaced, hop] at hplaced
    | send => simp [misplaced, hop] at hplaced
    | accept =>
      by_cases hresult : 0 ≤ e.result
      · refine .accepted hop hresult (quiet_accepted hs hcq hop hresult) ?_
        unfold handleCqe
        simp only [hctx, handler, hop, handleAccept, not_lt.mpr hresult, ↓reduceIte]
        refine .of_calm ((spares_orClose (fun _ h => spares_submitRecv h)).trans spares_retryAccept)
          ?_
        exact ((calm_orClose (fun _ h => calm_submitRecv h)).trans calm_retryAccept).tasks
      · unfold handleCqe
        simp only [hctx, handler, hop, handleAccept, not_le.mp hresult, ↓reduceIte]
        exact .nothing (if_neg (fun h => hresult h.2)) quiet_retryAccept
          (.of_calm spares_retryAccept calm_retryAccept.tasks)
    | notify =>
      unfold handleCqe
      simp only [hctx, handler, hop]
      refine .nothing (if_neg (fun h => absurd (hop.symm.trans h.1) (by decide)))
        (quiet_handleNotify.trans quiet_retryNotify) ?_
      exact idles_handleNotify.trans (.of_calm spares_retryNotify steady_retryNotify.tasks)
  | some p =>
    by_cases hcopied : e.op = .recv ∧ 0 < e.result ∧ (s.ctx p).closing = false
    · exact reads_copied hs hcq hctx hcopied.1 hcopied.2.1 hcopied.2.2
    · have hcopy : ({ s with cq := rest } : Reactor).copyOut e p = { s with cq := rest } :=
        if_neg hcopied
      rw [hctx] at hplaced
      have hnone : e.arrival = none := by
        cases hop : e.op <;> simp_all [Cqe.arrival, misplaced]
      have hquiet : Quiet { s with
          cq := rest } (({ s with cq := rest } : Reactor).handleCqe D e) := by
        cases starts_handleCqe (D := D) hs hcq with
        | accepted hop hresult =>
          have hsome : e.arrival = some e.result.toNat := if_pos ⟨hop, hresult⟩
          exact absurd (hnone.symm.trans hsome) (by simp)
        | plain hnone => exact absurd (hctx.symm.trans hnone) (by simp)
        | copied q hq hquiet =>
          cases Option.some.inj (hctx.symm.trans hq)
          rw [hcopy] at hquiet
          exact hquiet
      refine .nothing hnone hquiet ?_
      have hcompleted := idles_onComplete (s := ({ s with cq := rest } : Reactor)) (p := p)
      rcases sound_entered hs hcq hctx with ⟨t, ht, howing, -⟩ | ⟨hleft, -⟩
      · have heq := entered_eq ht
        rw [hcopy] at heq
        rw [← heq] at hcompleted
        unfold handleCqe
        simp only [hctx, ht, handler]
        cases hop : e.op with
        | accept => simp [misplaced, hop] at hplaced
        | notify => simp [misplaced, hop] at hplaced
        | recv =>
          have hclosing : (t.ctx p).closing = false := howing.serving.closing
          have hopen : (s.ctx p).closing = false := hcompleted.closing p hclosing
          have hresult : e.result ≤ 0 := not_lt.mp (fun hpos => hcopied ⟨hop, hpos, hopen⟩)
          exact hcompleted.trans (idles_handleRecv_failed hresult)
        | send => exact hcompleted.trans idles_handleSend
      · unfold handleCqe
        simp only [hctx, hleft, hcopy]
        exact hcompleted

end turn

section fresh

lemma Quiet.fresh {k : ℕ} (hq : Quiet s t) (h : t.Fresh k) : s.Fresh k := by
  rcases h with hnew | ⟨fd, hmem, hfile⟩
  · exact .inl (hq.accepts ▸ hnew)
  · rw [arrivals, hq.cq] at hmem
    exact .inr ⟨fd, hmem, hq.opened hfile⟩

lemma fresh_pop {e : Cqe} {rest : List Cqe} {k : ℕ} (hcq : s.cq = e :: rest)
    (h : ({ s with cq := rest } : Reactor).Fresh k) : s.Fresh k := by
  rcases h with hnew | ⟨fd, hmem, hfile⟩
  · exact .inl hnew
  · refine .inr ⟨fd, ?_, hfile⟩
    rw [arrivals, hcq]
    exact (List.sublist_cons_self e rest).filterMap _ |>.subset hmem

lemma copyOut_rest (e : Cqe) : (s.copyOut e p).files = s.files ∧
    (s.copyOut e p).accepts = s.accepts ∧
    (s.copyOut e p).mgr.allConns = s.mgr.allConns := by
  unfold copyOut
  split_ifs <;> exact ⟨rfl, rfl, rfl⟩

lemma fresh_copyOut {e : Cqe} {k : ℕ} (h : (s.copyOut e p).Fresh k) : s.Fresh k := by
  obtain ⟨hfiles, haccepts, _⟩ := copyOut_rest (s := s) (p := p) e
  rcases h with hnew | ⟨fd, hmem, hfile⟩
  · exact .inl (haccepts ▸ hnew)
  · rw [arrivals, copyOut_cq] at hmem
    exact .inr ⟨fd, hmem, hfiles ▸ hfile⟩

lemma complete_eq {o : Op} {i : ℕ} {result : ℤ} {data : Bytes} (hi : s.ops[i]? = some o) :
    s.complete i result data =
    { s with ops := s.ops.eraseIdx i, cq := s.cq ++ [⟨o.sqe.op, o.sqe.ctx, result, data⟩] } := by
  simp only [complete, hi]

lemma fresh_complete {o : Op} {i k : ℕ} {n : ℤ} {b : Bytes} (hi : s.ops[i]? = some o)
    (hop : o.sqe.op = .accept → n < 0) (h : (s.complete i n b).Fresh k) : s.Fresh k := by
  have hnone : (⟨o.sqe.op, o.sqe.ctx, n, b⟩ : Cqe).arrival = none :=
    if_neg (fun h => absurd (hop h.1) (not_lt.mpr h.2))
  rw [complete_eq hi] at h
  rcases h with hnew | ⟨fd, hmem, hfile⟩
  · exact .inl hnew
  · simp only [arrivals, List.filterMap_append, List.filterMap_cons_none hnone, List.filterMap_nil,
      List.append_nil] at hmem
    exact .inr ⟨fd, hmem, hfile⟩

lemma fresh_step {a : Action} {k : ℕ} (hs : s.view.Sound) (hstep : s.step D a = some t)
    (h : t.Fresh k) : s.Fresh k := by
  obtain ⟨hen, rfl⟩ := step_cases hstep
  cases a with
  | enter n => exact h
  | interrupted => exact h
  | loop => exact h
  | eventfdWrite => exact h
  | wake => exact quiet_retryDeferred.fresh h
  | handle =>
    cases hcq : s.cq with
    | nil => exact absurd hcq hen.2
    | cons e rest =>
      simp only [effect, hcq] at h
      cases starts_handleCqe (D := D) hs hcq with
      | accepted _ _ hquiet => exact fresh_pop hcq (hquiet.fresh h)
      | plain _ hquiet => exact fresh_pop hcq (hquiet.fresh h)
      | copied p _ hquiet => exact fresh_pop hcq (fresh_copyOut (hquiet.fresh h))
  | acceptDone i fd =>
    obtain ⟨⟨o, hi, hop, _⟩, _⟩ := hen
    simp only [effect, complete_eq hi] at h
    rcases h with hnew | ⟨fd', hmem, hfile⟩
    · exact .inl ((Nat.le_succ _).trans hnew)
    · simp only [arrivals, List.filterMap_append, List.mem_append] at hmem
      simp only [Function.update_apply] at hfile
      split_ifs at hfile with heq
      · exact .inl (Option.some.inj hfile).le
      · rcases hmem with hold | hnew
        · exact .inr ⟨fd', hold, hfile⟩
        · simp [Cqe.arrival, hop] at hnew
          exact absurd hnew.symm (Ne.symm heq)
  | recvDone i data =>
    obtain ⟨⟨o, hi, hop, hsocket⟩, _⟩ := hen
    obtain ⟨k', hk'⟩ := Option.ne_none_iff_exists'.mp (hsocket (.inl rfl))
    have hbind : (s.ops[i]?).bind Op.socket = some k' := by
      rw [Option.mem_def.mp hi, Option.bind_some, hk']
    simp only [effect, hbind] at h
    exact fresh_complete (n := data.length) (b := data) hi (by simp [hop]) h
  | sendDone i n =>
    obtain ⟨⟨o, hi, hop, _⟩, _⟩ := hen
    exact fresh_complete hi (by simp [hop]) h
  | notifyDone i =>
    obtain ⟨⟨o, hi, hop, _⟩, _⟩ := hen
    exact fresh_complete (n := 8) (b := []) hi (by simp [hop]) h
  | opFail i result =>
    obtain ⟨hsome, _, hfail⟩ := hen
    obtain ⟨o, hi⟩ := Option.ne_none_iff_exists'.mp hsome
    exact fresh_complete hi (hfail o hi) h
  | workerDone i responseStr =>
    simp only [effect, workerDone] at h
    cases hi : s.tasks[i]? with
    | none =>
      rw [hi] at h
      exact h
    | some task =>
      rw [hi] at h
      exact h

end fresh

section consumed

lemma Consumed.kept (h : Consumed D s g) (hreq : g'.dispatches = g.dispatches)
    (hfed : t.fed = s.fed)
    (hinput : ∀ q, (t.ctx q).input = (s.ctx q).input)
    (hclosing : ∀ q, (t.ctx q).closing = false → (s.ctx q).closing = false)
    (hsocket : ∀ q, (t.ctx q).socket = (s.ctx q).socket) (hall : t.mgr.allConns = s.mgr.allConns)
    (hfresh : ∀ k, t.Fresh k → s.Fresh k) : Consumed D t g' where
  requests k := by
    rw [Journal.requests, hreq, hfed]
    exact h.requests k
  fresh k hk := by
    rw [hfed]
    exact h.fresh k (hfresh k hk)
  leftover p hp hopen := by
    rw [hfed, hsocket, hinput]
    exact h.leftover p (hall ▸ hp) (hclosing p hopen)

lemma Consumed.idles (h : Consumed D s g) (hq : Quiet s t) (hi : Idles s t)
    (hreq : g'.dispatches = g.dispatches) :
    Consumed D t g' :=
  h.kept hreq hq.fed hi.input hi.closing hq.socket hq.allConns (fun _ => hq.fresh)

lemma Consumed.pop {e : Cqe} {rest : List Cqe} (h : Consumed D s g) (hcq : s.cq = e :: rest) :
    Consumed D { s with cq := rest } g :=
  h.kept rfl rfl (fun _ => rfl) (fun _ => id) (fun _ => rfl) rfl (fun _ => fresh_pop hcq)

lemma Consumed.acquire {fd k : ℕ} (h : Consumed D s g) (hs : s.view.Sound)
    (hopen : s.files fd = some k) (hfresh : s.fed k = []) :
    Consumed D (s.acquire fd) (g.opened s.mgr.idle.1) where
  requests := h.requests
  fresh := h.fresh
  leftover q hq hstill := by
    have hv : s.view.Vacant s.mgr.idle.1 s.mgr.idle.2 := hs.vacant
    rw [acquire_allConns] at hq
    show (D.uringDecoder.drain (s.fed _)).2 = _
    by_cases hqp : q = s.mgr.idle.1
    · rw [hqp, acquire_ctx, hopen, Option.getD_some, hfresh, Decoder.drain_nil]
      rfl
    · rw [acquire_ctx_ne fd hqp] at hstill ⊢
      exact h.leftover q (hv.old q hqp hq) hstill

lemma dispatched_requests {requests : List Request}
    (htasks : t.tasks = (s.dispatch p requests).tasks) :
    (t.tasks.drop s.tasks.length).map Task.request = requests := by
  rw [htasks, dispatch, List.drop_left]
  apply List.ext_getElem
  · simp
  · intro i _ _
    simp

lemma noteTurn_dispatches {e : Cqe} (htasks : t.tasks = s.tasks) :
    (noteTurn s t g e).dispatches = g.dispatches := by
  unfold noteTurn
  cases e.op <;> cases e.ctx <;>
    simp only [htasks, Journal.dispatch, Journal.resume, List.drop_length, List.map_nil,
    List.append_nil]
  all_goals
    split_ifs
    all_goals rfl

lemma requests_dispatch (c : ConnectionContext) (tasks : List Task) (k : ℕ) :
    (g.dispatch c tasks).requests k =
    g.requests k ++ if c.socket = k then tasks.map Task.request else [] := by
  have hmap : tasks.map (fun task => (c, task)) = tasks.map (Prod.mk c) := rfl
  rw [Journal.requests, Journal.dispatch, List.filter_append, List.map_append, Journal.requests,
    hmap, List.filter_map]
  split_ifs with hk
  · simp [Function.comp_def, hk]
  · simp [Function.comp_def, hk]

lemma copyOut_socket (e : Cqe) (q : ℕ) : ((s.copyOut e p).ctx q).socket = (s.ctx q).socket := by
  unfold copyOut
  split_ifs
  · have hctx :=
      ctx_modify_apply (s := s) (p := p) (fun ctx => { ctx with input := ctx.input ++ e.data }) q
    refine (congrArg ConnectionContext.socket hctx).trans ?_
    split_ifs <;> rfl
  · rfl

lemma Owned.not_fresh (h : s.Owned) (hs : s.view.Sound) (hp : p < s.mgr.allConns) :
    ¬ s.Fresh (s.ctx p).socket := by
  rintro (hlast | ⟨fd, harrived, hfile⟩)
  · exact absurd (h.old p hp) (not_lt.mpr hlast)
  · have hfree : s.find fd = none := (hs.world.arrived fd harrived).1
    exact absurd (hfree.symm.trans (h.owned p hp fd hfile)) (by simp)

variable {e : Cqe} {rest : List Cqe}

lemma Consumed.handle (h : Consumed D s g) (hs : s.view.Sound) (ho : s.Owned)
    (hcq : s.cq = e :: rest)
    (ht : t = ({ s with cq := rest } : Reactor).handleCqe D e)
    (hg : g' = noteTurn { s with cq := rest } t g e) :
    Consumed D t g' := by
  have hread := reads_handleCqe (D := D) hs hcq
  rw [← ht] at hread
  cases hread with
  | accepted hop hresult hquiet hidle =>
    have hsome : e.arrival = some e.result.toNat := if_pos ⟨hop, hresult⟩
    have hmem : e.result.toNat ∈ s.arrivals := by simp [arrivals, hcq, hsome]
    obtain ⟨hfree, hfile⟩ := hs.world.arrived _ hmem
    obtain ⟨k, hopen⟩ := Option.ne_none_iff_exists'.mp hfile
    have hfresh := h.fresh k (.inr ⟨_, hmem, hopen⟩)
    have hacquired : Consumed D (({ s with cq := rest } : Reactor).acquire e.result.toNat)
        (g.opened s.mgr.idle.1) := by
      exact (h.acquire hs hopen hfresh).kept rfl rfl (fun _ => rfl) (fun _ => id) (fun _ => rfl) rfl
        (fun _ => fresh_pop hcq)
    refine hacquired.idles hquiet hidle ?_
    rw [hg]
    simp only [noteTurn, hop, hresult, ↓reduceIte]
  | nothing harrival hquiet hidle =>
    refine (h.pop hcq).idles hquiet hidle ?_
    rw [hg]
    exact noteTurn_dispatches hidle.tasks
  | read p hop hctx hfed hquiet hopen hothers hown htasks =>
    have hmem : e ∈ s.cq := by simp [hcq]
    have htag := cqe_tag hmem
    rw [hctx] at htag
    have hbusy := (tag_busy hs htag).1
    have hsocket : ∀ q, (t.ctx q).socket = (s.ctx q).socket :=
      fun q => (hquiet.socket q).trans (copyOut_socket e q)
    have hfed' : t.fed = Function.update s.fed (s.ctx p).socket
        (s.fed (s.ctx p).socket ++ e.data) := hquiet.fed.trans hfed
    have hdrain := D.uringDecoder.feed_drain (s.fed (s.ctx p).socket) e.data
    rw [Decoder.feed, h.leftover p hbusy hopen] at hdrain
    obtain ⟨_, _, hall⟩ := copyOut_rest (s := { s with cq := rest }) (p := p) e
    have hnew : ∀ k, t.Fresh k → s.Fresh k :=
      fun k hk => fresh_pop hcq (fresh_copyOut (hquiet.fresh hk))
    refine ⟨fun k => ?_, fun k hk => ?_, fun q hq hstill => ?_⟩
    · have hread : (t.tasks.drop s.tasks.length).map Task.request =
          (D.uringDecoder.drain ((s.ctx p).input ++ e.data)).1 :=
        dispatched_requests (s := { s with cq := rest }) htasks
      have hnote : g' = g.dispatch ((({ s with cq := rest } : Reactor).copyOut e p).ctx p)
          (t.tasks.drop s.tasks.length) := by
        rw [hg]
        simp only [noteTurn, hop, hctx]
      have hfrom : ((({ s with cq := rest } : Reactor).copyOut e p).ctx p).socket =
          (s.ctx p).socket := copyOut_socket e p
      rw [hnote, requests_dispatch, hfrom, hread, h.requests, hfed', Function.update_apply]
      by_cases hk : k = (s.ctx p).socket
      · rw [if_pos hk.symm, if_pos hk, hk, ← hdrain]
      · rw [if_neg (Ne.symm hk), if_neg hk, List.append_nil]
    · have hold := hnew k hk
      have hne : k ≠ (s.ctx p).socket := by
        rintro rfl
        exact ho.not_fresh hs hbusy hold
      rw [hfed', Function.update_of_ne hne]
      exact h.fresh k hold
    · have hq' : q < s.mgr.allConns := by
        rw [hquiet.allConns, hall] at hq
        exact hq
      rw [hfed', hsocket, Function.update_apply]
      by_cases hqp : q = p
      · subst hqp
        rw [if_pos rfl, ← hdrain]
        exact hown hstill
      · have hsole : (s.ctx q).socket ≠ (s.ctx p).socket :=
          fun heq => hqp (ho.distinct q p hq' hbusy heq)
        rw [if_neg hsole, (hothers q hqp).1]
        exact h.leftover q hq' ((hothers q hqp).2 hstill)

lemma note_dispatches {a : Action} (hhandle : a ≠ .handle) :
    (note s a t g).dispatches = g.dispatches := by
  cases a with
  | handle => exact absurd rfl hhandle
  | sendDone i n => exact (noteSent_requests i n).1
  | _ => rfl

lemma effect_fed {a : Action} (hhandle : a ≠ .handle) : (s.effect D a).fed = s.fed := by
  have hcomplete : ∀ i result data, (s.complete i result data).fed = s.fed := by
    intro i result data
    obtain ⟨ops, cq, h⟩ := complete_shape (s := s) i result data
    rw [h]
  cases a with
  | handle => exact absurd rfl hhandle
  | wake => exact quiet_retryDeferred.fed
  | recvDone i data =>
    simp only [effect]
    cases (s.ops[i]?).bind Op.socket with
    | none => rfl
    | some k => exact hcomplete i data.length data
  | acceptDone i fd => exact hcomplete i fd []
  | sendDone i n => exact hcomplete i n []
  | notifyDone i => exact hcomplete i 8 []
  | opFail i result => exact hcomplete i result []
  | workerDone i responseStr =>
    simp only [effect, workerDone]
    cases s.tasks[i]? <;> rfl
  | _ => rfl

lemma Consumed.step {a : Action} (h : Consumed D s g) (hs : s.view.Sound) (ho : s.Owned)
    (hstep : s.step D a = some t)
    (hg : g' = note s a t g) : Consumed D t g' := by
  have hfresh : ∀ k, t.Fresh k → s.Fresh k := fun k => fresh_step hs hstep
  obtain ⟨hen, rfl⟩ := step_cases hstep
  by_cases hhandle : a = .handle
  · subst hhandle
    cases hcq : s.cq with
    | nil => exact absurd hcq hen.2
    | cons e rest =>
      simp only [effect, hcq]
      simp only [note, effect, hcq] at hg
      exact h.handle hs ho hcq rfl hg
  have hreq : g'.dispatches = g.dispatches := hg ▸ note_dispatches hhandle
  by_cases hwake : a = .wake
  · subst hwake
    have hidle : Idles s s.retryDeferred := by
      obtain ⟨sq, b, b', heq⟩ := retryDeferred_shape (s := s)
      rw [heq]
      exact ⟨fun _ => rfl, fun _ => id, rfl⟩
    exact h.idles quiet_retryDeferred hidle hreq
  have hmgr := (effect_mgr (D := D) (s := s) hwake hhandle).1
  have hctx : ∀ q, (s.effect D a).ctx q = s.ctx q := fun q => congrArg (fun m => m.contexts q) hmgr
  refine h.kept hreq (effect_fed hhandle) (fun q => ?_) (fun q hq => ?_) (fun q => ?_)
    (by rw [hmgr]) hfresh
  · rw [hctx]
  · rw [hctx] at hq
    exact hq
  · rw [hctx]

end consumed

lemma consumed_run {as : List Action} {x : Reactor × Journal}
    (h : Run (record D) Any (listening, {}) as x) :
    Consumed D x.1 x.2 := by
  refine h.invariant_with (K := fun x => x.1.view.Sound ∧ x.1.Owned)
    (I := fun x => Consumed D x.1 x.2) ?_
    (fun _ _ hr => ⟨sound_record hr, owned_run (Run.unnoted Any hr.any)⟩) ?_
  · refine ⟨fun k => ?_, fun _ _ => rfl, nofun⟩
    rw [show listening.fed k = [] from rfl, Decoder.drain_nil]
    rfl
  · intro x a y hs _ hi _ hstep
    obtain ⟨ht, hg⟩ := noted_cases hstep
    exact hi.step hs.1 hs.2 ht hg

/-- However the bytes of a connection are cut, and whatever else the loop does in between, the
requests that were dispatched from it are those its decoder reads in all its bytes at once,
and the input of an open connection is what the decoder leaves. -/
theorem stream_dispatched (D : Decoding) {as : List Action}
    (h : Run (record D) Any (listening, {}) as (t, g)) (k : ℕ) :
    g.requests k = (D.uringDecoder.drain (t.fed k)).1 ∧
    ∀ p, t.Active p → (t.ctx p).socket = k →
    (D.uringDecoder.drain (t.fed k)).2 = .pending (t.ctx p).input := by
  have hconsumed := consumed_run h
  refine ⟨hconsumed.requests k, ?_⟩
  rintro p hp rfl
  have hlt := (mapped_of_sound (sound_record h) _ p ((hp.mapped _).mpr rfl)).1
  exact hconsumed.leftover p hlt hp.closing

theorem stream_dispatched_sample :
    ∃ t g, exec (record sampleDecoding) (listening, {}) answeredRun = some (t, g) ∧
    (g.requests 0).length = 1 ∧ g.requests 0 = (sampleDecoding.uringDecoder.drain (t.fed 0)).1 := by
  obtain ⟨⟨t, g⟩, ht, hd⟩ : ∃ x, exec (record sampleDecoding) (listening, {}) answeredRun = some x ∧
      decide ((x.2.requests 0).length = 1) = true := exec_any (by decide)
  have hrun : Run (record sampleDecoding) Any (listening, {}) answeredRun (t, g) :=
    .of_exec ht (by decide)
  exact ⟨t, g, ht, of_decide_eq_true hd, (stream_dispatched sampleDecoding hrun 0).1⟩

end Reactor

end KimRpc.Server
