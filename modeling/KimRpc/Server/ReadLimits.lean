import KimRpc.Server.Backpressure

/-! What a connection holds at most. Its input is less than one request between two
receives, and a receive is on its way only below the limit of the requests in flight,
so that this limit is exceeded by the requests that one chunk completes. -/

namespace KimRpc.Server

open Library.Runs Library.StreamDecoding Library.HeaderFraming Wire

def kMaxRequestSize : ℕ := 4 + kMaxHeaderSize + kMaxBodySize

/-- The most requests that one chunk completes: each takes four bytes, but for the first,
which may have begun before. -/
def burst : ℕ := 1 + (kBufSize - 1) / 4

section decoding

variable (D : Decoding) {input chunk : Bytes}

lemma Decoding.wait_length (h : D.tryHandleRequest input = .wait) :
    input.length < kMaxRequestSize := by
  rw [D.tryHandleRequest_eq] at h
  refine D.uringFraming.next_wait_length (H := kMaxHeaderSize) (B := kMaxBodySize) ?_ ?_ h
  · exact fun n hn => of_decide_eq_true hn
  · exact fun n hn => of_decide_eq_true hn

lemma Decoding.emit_front {out : List Request} {rest : Bytes}
    (h : D.tryHandleRequest input = .emit out rest) :
    out.length = 1 ∧ 4 + rest.length ≤ input.length := by
  rw [D.tryHandleRequest_eq] at h
  obtain ⟨hlen, header, args, hout⟩ := D.uringFraming.next_emit h
  refine ⟨?_, hlen⟩
  simp only [uringFraming] at hout
  split_ifs at hout
  rw [← Option.some.inj hout, List.length_singleton]

lemma Decoding.drain_burst (hw : D.tryHandleRequest input = .wait)
    (hchunk : chunk.length ≤ kBufSize) :
    (D.uringDecoder.drain (input ++ chunk)).1.length ≤ burst := by
  cases hv : D.uringDecoder.next (input ++ chunk) with
  | wait => simp [D.uringDecoder.drain_wait hv]
  | stop => simp [D.uringDecoder.drain_stop hv]
  | emit out rest =>
    have hfirst := (D.emit_front hv).1
    have hrest : rest.length < chunk.length := by
      have he : D.tryHandleRequest (input ++ chunk) = .emit out rest := hv
      rw [D.tryHandleRequest_eq] at hw he
      exact D.uringFraming.next_completed hw he
    have hmore : 4 * (D.uringDecoder.drain rest).1.length ≤ rest.length := by
      apply D.uringDecoder.drain_length
      intro xs out rest he
      obtain ⟨hone, hlen⟩ := D.emit_front he
      omega
    rw [D.uringDecoder.drain_emit hv, List.length_append, burst]
    omega

end decoding

structure Spared (ctx ctx' : ConnectionContext) : Prop where
  input : ctx'.input = ctx.input
  pendingReqs : ctx'.pendingReqs = ctx.pendingReqs
  readPaused : ctx'.readPaused = ctx.readPaused
  closing : ctx'.closing = false → ctx.closing = false

structure Bounded (ctx : ConnectionContext) : Prop where
  input : ctx.input.length < kMaxRequestSize + kBufSize
  pendingReqs : ctx.pendingReqs < kMaxInflightPerConn + burst

structure Within (D : Decoding) (ctx : ConnectionContext) : Prop extends Bounded ctx where
  waits : ctx.closing = false → D.tryHandleRequest ctx.input = .wait
  reading : ctx.closing = false → ctx.readPaused = false → ctx.pendingReqs < kMaxInflightPerConn

section contexts

variable {D : Decoding} {ctx ctx' ctx'' : ConnectionContext}

lemma Spared.refl (ctx : ConnectionContext) : Spared ctx ctx := ⟨rfl, rfl, rfl, id⟩

lemma Spared.trans (h : Spared ctx ctx') (h' : Spared ctx' ctx'') : Spared ctx ctx'' :=
  ⟨h'.input.trans h.input, h'.pendingReqs.trans h.pendingReqs, h'.readPaused.trans h.readPaused,
    fun hc => h.closing (h'.closing hc)⟩

lemma Within.spared (h : Within D ctx) (hs : Spared ctx ctx') : Within D ctx' := by
  refine ⟨⟨?_, ?_⟩, fun hc => ?_, fun hc hp => ?_⟩
  · rw [hs.input]
    exact h.input
  · rw [hs.pendingReqs]
    exact h.pendingReqs
  · rw [hs.input]
    exact h.waits (hs.closing hc)
  · rw [hs.pendingReqs]
    rw [hs.readPaused] at hp
    exact h.reading (hs.closing hc) hp

lemma Bounded.closed (h : Bounded ctx) : Within D { ctx with closing := true } :=
  ⟨⟨h.input, h.pendingReqs⟩, nofun, nofun⟩

lemma within_empty (hi : ctx.input = []) (hp : ctx.pendingReqs = 0) : Within D ctx := by
  refine ⟨⟨?_, ?_⟩, fun _ => ?_, fun _ _ => ?_⟩
  · rw [hi]
    decide
  · rw [hp]
    decide
  · rw [hi]
    rfl
  · rw [hp]
    decide

end contexts

namespace Reactor

variable (D : Decoding) (s t u : Reactor) (fd p : ℕ)

def Spares : Prop := ∀ q, Spared (s.ctx q) (t.ctx q)

structure Limited : Prop where
  contexts : ∀ q, Within D (s.ctx q)
  chunks : ∀ e ∈ s.cq, e.data.length ≤ kBufSize

variable {D s t u fd p}

lemma Spares.refl (s : Reactor) : Spares s s := fun q => Spared.refl (s.ctx q)

lemma Spares.trans (h : Spares s t) (h' : Spares t u) : Spares s u := fun q => (h q).trans (h' q)

lemma spares_of_mgr (h : t.mgr = s.mgr) : Spares s t := by
  intro q
  rw [show t.ctx q = s.ctx q by rw [ctx, h, ctx]]
  exact Spared.refl _

lemma spares_modify {f : ConnectionContext → ConnectionContext} (hf : ∀ ctx, Spared ctx (f ctx)) :
    Spares s (s.modify p f) := by
  intro q
  rw [ctx_modify_apply]
  split_ifs
  · exact hf _
  · exact Spared.refl _

lemma ctx_close (hp : s.find fd = some p) (q : ℕ) :
    (s.close fd).ctx q = if q = p then { s.ctx q with closing := true } else s.ctx q := by
  simp only [close, hp, ctx, ConnectionManager.close_of_find hp, Function.update_apply]
  split_ifs with hq
  · rw [hq]
  · rfl

lemma spares_close : Spares s (s.close fd) := by
  cases hfind : s.find fd with
  | none =>
    rw [close, hfind]
    exact Spares.refl s
  | some p =>
    intro q
    rw [ctx_close hfind]
    split_ifs
    · exact ⟨rfl, rfl, rfl, nofun⟩
    · exact Spared.refl _

lemma spares_orClose {submitted : Option Reactor} (h : ∀ t, submitted = some t → Spares s t) :
    Spares s (s.orClose fd submitted) := by
  cases submitted with
  | none => exact spares_close
  | some t => exact h t rfl

lemma spares_submit {e : Sqe} (h : s.submit e = some t) : Spares s t := by
  cases submit_eq h
  exact spares_of_mgr rfl

lemma spares_onSubmit : Spares s (s.onSubmit p) := spares_modify (fun _ => ⟨rfl, rfl, rfl, id⟩)

lemma spares_submitRecv (h : s.submitRecv fd = some t) : Spares s t := by
  unfold submitRecv at h
  cases hfind : s.find fd with
  | none => simp [hfind] at h
  | some p =>
    simp only [hfind, Option.map_eq_some_iff] at h
    obtain ⟨u, hu, rfl⟩ := h
    exact (spares_submit hu).trans spares_onSubmit

lemma spares_submitSend (h : s.submitSend fd = some t) : Spares s t := by
  unfold submitSend at h
  cases hfind : s.find fd with
  | none => simp [hfind] at h
  | some p =>
    cases hq : (s.ctx p).outQueue with
    | nil =>
      simp only [hfind, hq, Option.some.injEq] at h
      subst h
      exact spares_modify (fun _ => ⟨rfl, rfl, rfl, id⟩)
    | cons front rest =>
      simp only [hfind, hq, Option.map_eq_some_iff] at h
      obtain ⟨u, hu, rfl⟩ := h
      exact ((spares_submit hu).trans spares_onSubmit).trans
        (spares_modify (fun _ => ⟨rfl, rfl, rfl, id⟩))

lemma spares_continueSend : Spares s (s.continueSend p) := by
  unfold continueSend
  split_ifs
  · exact spares_modify (fun _ => ⟨rfl, rfl, rfl, id⟩)
  · exact spares_orClose (fun _ h => spares_submitSend h)

lemma spares_retryAccept : Spares s s.retryAccept := by
  unfold retryAccept submitAccept
  cases h : s.submit ⟨.accept, 0, none, [], 0⟩ with
  | none => exact spares_of_mgr rfl
  | some t => exact spares_submit h

lemma spares_retryNotify : Spares s s.retryNotify := by
  unfold retryNotify submitNotifyRead
  cases h : s.submit ⟨.notify, 0, none, [], 0⟩ with
  | none => exact spares_of_mgr rfl
  | some t => exact spares_submit h

lemma spares_resume (c : Coro) : Spares s (s.resume c) := by
  unfold resume deliverResponse
  cases s.find c.fd with
  | none =>
    rw [ite_self]
    exact Spares.refl s
  | some p =>
    have hpushed :
        Spares s (s.modify p (fun ctx => { ctx with outQueue := ctx.outQueue ++ [c.frame] })) :=
      spares_modify (fun _ => ⟨rfl, rfl, rfl, id⟩)
    simp only
    split_ifs
    · exact Spares.refl s
    · exact Spares.refl s
    · exact hpushed
    · exact hpushed.trans (spares_orClose (fun _ h => spares_submitSend h))

lemma spares_handleNotify : Spares s s.handleNotify := by
  unfold handleNotify
  have hempty : Spares s { s with readyCoros := [] } := spares_of_mgr rfl
  generalize ({ s with readyCoros := [] } : Reactor) = u at hempty
  induction s.readyCoros generalizing u with
  | nil => exact hempty
  | cons c cs ih => exact ih _ (hempty.trans (spares_resume c))

lemma spares_onComplete : Spares s { s with mgr := (s.mgr.onComplete p).2 } := by
  intro q
  simp only [ctx, ConnectionManager.onComplete_eq, Function.update_apply]
  split_ifs with hq
  · rw [hq]
    exact ⟨rfl, rfl, rfl, id⟩
  · exact Spared.refl _

section handlers

lemma within_acquire (h : ∀ q, Within D (s.ctx q)) (q : ℕ) : Within D ((s.acquire fd).ctx q) := by
  by_cases hq : q = s.mgr.idle.1
  · rw [hq, ctx_acquire]
    exact within_empty rfl rfl
  · rw [ctx_acquire_ne hq]
    exact h q

lemma within_handleAccept {result : ℤ} (h : ∀ q, Within D (s.ctx q)) (q : ℕ) :
    Within D ((s.handleAccept result).ctx q) := by
  unfold handleAccept
  split_ifs
  · exact (h q).spared (spares_retryAccept q)
  · have hacquired : Within D ((s.acquire result.toNat).ctx q) := within_acquire h q
    have harmed : Spares (s.acquire result.toNat)
        ((s.acquire result.toNat).orClose result.toNat
          ((s.acquire result.toNat).submitRecv result.toNat)) :=
      spares_orClose (fun _ ht => spares_submitRecv ht)
    exact hacquired.spared ((harmed.trans spares_retryAccept) q)

lemma within_modify {f : ConnectionContext → ConnectionContext} (h : ∀ q ≠ p, Within D (s.ctx q))
    (hp : Within D (f (s.ctx p))) (q : ℕ) : Within D ((s.modify p f).ctx q) := by
  rw [ctx_modify_apply]
  split_ifs with hq
  · rw [hq]
    exact hp
  · exact h q hq

lemma spares_handleRecv_failed {result : ℤ} (hresult : result ≤ 0) :
    Spares s (s.handleRecv D p result) := by
  unfold handleRecv
  simp only [hresult, ↓reduceIte]
  split_ifs
  · exact Spares.refl s
  · exact spares_orClose (fun _ h => spares_submitRecv h)
  · exact spares_close

lemma within_handleRecv {result : ℤ} {input chunk : Bytes} (h : ∀ q ≠ p, Within D (s.ctx q))
    (hmapped : s.find (s.ctx p).fd = some p) (hclosing : (s.ctx p).closing = false)
    (hresult : 0 < result)
    (hinput : (s.ctx p).input = input ++ chunk) (hwait : D.tryHandleRequest input = .wait)
    (hchunk : chunk.length ≤ kBufSize) (hreading : (s.ctx p).pendingReqs < kMaxInflightPerConn)
    (q : ℕ) :
    Within D ((s.handleRecv D p result).ctx q) := by
  have hburst := D.drain_burst hwait hchunk
  have hlen := D.wait_length hwait
  have hpending := D.uringDecoder.pending_waits (input ++ chunk)
  unfold handleRecv
  simp only [hclosing, Bool.false_eq_true, ↓reduceIte, not_le.mpr hresult, hinput]
  cases hdrain : D.uringDecoder.drain (input ++ chunk) with | mk requests status =>
  rw [hdrain] at hburst hpending
  have hothers : ∀ q ≠ p, Within D ((s.dispatch p requests).ctx q) := by
    intro q hq
    rw [ctx_dispatch_apply, if_neg hq]
    exact h q hq
  have hp : (s.dispatch p requests).ctx p = { s.ctx p with
      pendingReqs := (s.ctx p).pendingReqs + requests.length } :=
    ctx_dispatch requests
  have hcount : (s.ctx p).pendingReqs + requests.length < kMaxInflightPerConn + burst := by
    simp only at hburst
    omega
  cases status with
  | stopped =>
    have hmapped' : (s.dispatch p requests).find (s.ctx p).fd = some p := hmapped
    simp only
    rw [ctx_close hmapped']
    split_ifs with hq
    · rw [hq, hp]
      apply Bounded.closed
      refine ⟨?_, hcount⟩
      simp only [hinput, List.length_append]
      omega
    · exact hothers q hq
  | pending rest =>
    have hrest := hpending rest rfl
    have hshort : rest.length < kMaxRequestSize + kBufSize :=
      Nat.lt_add_right _ (D.wait_length hrest)
    have hctx : ((s.dispatch p requests).modify p (fun ctx => { ctx with input := rest })).ctx p =
        { s.ctx p with pendingReqs := (s.ctx p).pendingReqs + requests.length, input := rest } := by
      rw [ctx_modify, hp]
    have hothers' : ∀ q ≠ p,
        Within D (((s.dispatch p requests).modify p (fun ctx => { ctx with input := rest })).ctx
          q) := by
      intro q hq
      rw [ctx_modify_apply, if_neg hq]
      exact hothers q hq
    simp only
    generalize (s.dispatch p requests).modify p (fun ctx => { ctx with input := rest }) = u at *
    split_ifs with hfull
    · apply within_modify hothers'
      rw [hctx]
      exact ⟨⟨hshort, hcount⟩, fun _ => hrest, nofun⟩
    · refine Within.spared ?_ (spares_orClose (fun _ ht => spares_submitRecv ht) q)
      by_cases hq : q = p
      · rw [hctx] at hfull
        rw [hq, hctx]
        exact ⟨⟨hshort, hcount⟩, fun _ => hrest, fun _ _ => not_le.mp hfull⟩
      · exact hothers' q hq

lemma within_handleSend {result : ℤ} (h : ∀ q, Within D (s.ctx q)) (q : ℕ) :
    Within D ((s.handleSend p result).ctx q) := by
  unfold handleSend
  split_ifs with hresult
  · exact (h q).spared (spares_close q)
  cases (s.ctx p).outQueue with
  | nil => exact (h q).spared (spares_of_mgr (s := s) rfl q)
  | cons front rest =>
    have hpopped : Within D
        { s.ctx p with
          outQueue := rest, written := 0, pendingReqs := (s.ctx p).pendingReqs - 1 } := by
      have hless : (s.ctx p).pendingReqs - 1 < (s.ctx p).pendingReqs := Int.sub_one_lt_of_le le_rfl
      exact ⟨⟨(h p).input, hless.trans (h p).pendingReqs⟩, (h p).waits,
        fun hc hpaused => hless.trans ((h p).reading hc hpaused)⟩
    simp only
    split_ifs with hdone hresume
    · rw [ctx_modify] at hresume
      have hresumed : ∀ q, Within D (((s.modify p (fun ctx =>
          { ctx with outQueue := rest, written := 0, pendingReqs := ctx.pendingReqs - 1 })).modify p
            (fun ctx => { ctx with readPaused := false })).ctx q) := by
        apply within_modify
        · intro q hq
          rw [ctx_modify_apply, if_neg hq]
          exact h q
        · rw [ctx_modify]
          exact ⟨⟨hpopped.input, hpopped.pendingReqs⟩, hpopped.waits, fun _ _ => hresume.2⟩
      generalize Reactor.modify _ p (fun ctx => { ctx with readPaused := false }) = u at *
      cases hrecv : u.submitRecv (s.ctx p).fd with
      | none => exact (hresumed q).spared (spares_close q)
      | some t =>
        exact (hresumed q).spared (((spares_submitRecv hrecv).trans spares_continueSend) q)
    · exact (within_modify (fun q _ => h q) hpopped q).spared (spares_continueSend q)
    · refine (within_modify (fun q _ => h q) ?_ q).spared (spares_continueSend q)
      exact (h p).spared ⟨rfl, rfl, rfl, id⟩

end handlers

section steps

variable {e : Cqe} {rest : List Cqe}

lemma within_copied (hctx : e.ctx = some p) (hs : s.view.Sound) (hcq : s.cq = e :: rest)
    (h : Limited D s)
    (hcopied : e.op = .recv ∧ 0 < e.result ∧ (s.ctx p).closing = false) (q : ℕ) :
    Within D ((({ s with cq := rest } : Reactor).handleCqe D e).ctx q) := by
  obtain ⟨hop, hresult, hopen⟩ := hcopied
  have hcopy : ({ s with cq := rest } : Reactor).copyOut e p =
      { ({ s with cq := rest } : Reactor).modify p (fun ctx => { ctx with
        input := ctx.input ++ e.data }) with
        fed := Function.update s.fed (s.ctx p).socket (s.fed (s.ctx p).socket ++ e.data) } :=
    if_pos ⟨hop, hresult, hopen⟩
  have hinput (q : ℕ) : ((({ s with cq := rest } : Reactor).copyOut e p).ctx q) =
      if q = p then { s.ctx q with input := (s.ctx q).input ++ e.data } else s.ctx q := by
    rw [hcopy]
    exact ctx_modify_apply (s := { s with cq := rest }) (fun ctx => { ctx with
      input := ctx.input ++ e.data }) q
  rcases sound_entered hs hcq hctx with ⟨t, ht, howing, -⟩ | ⟨hnone, -⟩
  · have hothers : ∀ q ≠ p, Within D (t.ctx q) := by
      intro q hq
      have hspared :=
        spares_onComplete (s := ({ s with cq := rest } : Reactor).copyOut e p) (p := p) q
      rw [← entered_eq ht, hinput, if_neg hq] at hspared
      exact (h.contexts q).spared hspared
    have hentered := entered_ctx ht
    rw [hinput, if_pos rfl] at hentered
    have hpaused : (t.ctx p).readPaused = false := by
      have harmed : t.view.out p .recv + 1 = if (t.ctx p).readPaused then 0 else 1 := by
        have hrecvs := howing.recvs.armed
        rw [hop] at hrecvs
        exact hrecvs
      by_contra hpaused
      rw [if_pos (by simpa using hpaused)] at harmed
      exact Nat.succ_ne_zero _ harmed
    have hreading : (t.ctx p).pendingReqs < kMaxInflightPerConn := by
      rw [hentered] at hpaused ⊢
      exact (h.contexts p).reading hopen hpaused
    have hchunk : e.data.length ≤ kBufSize := h.chunks e (by simp [hcq])
    unfold handleCqe
    simp only [hctx, ht, handler, hop]
    exact within_handleRecv hothers howing.serving.mapped howing.serving.closing hresult
      (by rw [hentered])
      ((h.contexts p).waits hopen) hchunk hreading q
  · -- a context is recycled only when it is closing
    have hrecycled : ((({ s with cq := rest } : Reactor).copyOut e p).mgr.onComplete p).1 =
        true := by
      by_contra hfalse
      simp [entered, hfalse] at hnone
    rw [ConnectionManager.onComplete_recycles, decide_eq_true_eq] at hrecycled
    have hclosing := hrecycled.1
    have hsame : ((({ s with cq := rest } : Reactor).copyOut e p).mgr.contexts p) =
        { s.ctx p with input := (s.ctx p).input ++ e.data } := (hinput p).trans (if_pos rfl)
    rw [hsame, hopen] at hclosing
    cases hclosing

lemma Limited.handle (hs : s.view.Sound) (hcq : s.cq = e :: rest) (h : Limited D s) :
    Limited D (({ s with cq := rest } : Reactor).handleCqe D e) := by
  have hpopped : ∀ q, Within D (({ s with cq := rest } : Reactor).ctx q) := h.contexts
  constructor
  · intro q
    have hplaced := placed hcq hs
    cases hctx : e.ctx with
    | none =>
      rw [hctx] at hplaced
      unfold handleCqe
      simp only [hctx, handler]
      cases hop : e.op with
      | accept => exact within_handleAccept hpopped q
      | notify => exact (hpopped q).spared ((spares_handleNotify.trans spares_retryNotify) q)
      | recv => simp [misplaced, hop] at hplaced
      | send => simp [misplaced, hop] at hplaced
    | some p =>
      by_cases hcopied : e.op = .recv ∧ 0 < e.result ∧ (s.ctx p).closing = false
      · exact within_copied hctx hs hcq h hcopied q
      · have hcopy : ({ s with cq := rest } : Reactor).copyOut e p = { s with cq := rest } :=
          if_neg hcopied
        rw [hctx] at hplaced
        rcases sound_entered hs hcq hctx with ⟨t, ht, howing, -⟩ | ⟨hnone, -⟩
        · have heq := entered_eq ht
          rw [hcopy] at heq
          have hentered : ∀ q, Within D (t.ctx q) := by
            intro q
            rw [heq]
            exact (hpopped q).spared (spares_onComplete q)
          unfold handleCqe
          simp only [hctx, ht, handler]
          cases hop : e.op with
          | accept => simp [misplaced, hop] at hplaced
          | notify => simp [misplaced, hop] at hplaced
          | recv =>
            have hopen : (s.ctx p).closing = false := by
              have hclosing : (t.ctx p).closing = false := howing.serving.closing
              rw [entered_ctx ht, hcopy] at hclosing
              exact hclosing
            have hresult : e.result ≤ 0 := not_lt.mp (fun hpos => hcopied ⟨hop, hpos, hopen⟩)
            exact (hentered q).spared (spares_handleRecv_failed hresult q)
          | send => exact within_handleSend hentered q
        · unfold handleCqe
          simp only [hctx, hnone, hcopy]
          exact (hpopped q).spared (spares_onComplete q)
  · have hcqs : (({ s with cq := rest } : Reactor).handleCqe D e).cq = rest := by
      cases starts_handleCqe (D := D) hs hcq with
      | accepted _ _ hquiet => exact hquiet.cq
      | plain _ hquiet => exact hquiet.cq
      | copied p _ hquiet => exact hquiet.cq.trans (copyOut_cq e)
    rw [hcqs]
    exact fun e' he' => h.chunks e' (hcq ▸ List.mem_cons_of_mem e he')

lemma complete_chunks {i : ℕ} {result : ℤ} {data : Bytes} (h : ∀ e ∈ s.cq, e.data.length ≤ kBufSize)
    (hdata : data.length ≤ kBufSize) : ∀ e ∈ (s.complete i result data).cq,
    e.data.length ≤ kBufSize := by
  unfold complete
  cases s.ops[i]? with
  | none => exact h
  | some o =>
    intro e he
    rcases List.mem_append.mp he with hold | hnew
    · exact h e hold
    · rw [List.mem_singleton.mp hnew]
      exact hdata

lemma Limited.step {a : Action} (hs : s.view.Sound) (h : Limited D s)
    (hstep : s.step D a = some t) : Limited D t := by
  obtain ⟨hen, rfl⟩ := step_cases hstep
  by_cases hhandle : a = .handle
  · subst hhandle
    cases hcq : s.cq with
    | nil => exact absurd hcq hen.2
    | cons e rest =>
      simp only [effect, hcq]
      exact h.handle hs hcq
  have hempty : ([] : Bytes).length ≤ kBufSize := Nat.zero_le _
  have hmgr : (s.effect D a).mgr = s.mgr ∧ ∀ e ∈ (s.effect D a).cq, e.data.length ≤ kBufSize := by
    cases a with
    | handle => exact absurd rfl hhandle
    | wake =>
      obtain ⟨sq, b, b', hshape⟩ := retryDeferred_shape (s := s)
      simp only [effect, hshape]
      exact ⟨trivial, h.chunks⟩
    | acceptDone i fd => exact ⟨(complete_mgr i _ _).1, complete_chunks h.chunks hempty⟩
    | recvDone i data =>
      simp only [effect]
      cases (s.ops[i]?).bind Op.socket with
      | none => exact ⟨rfl, h.chunks⟩
      | some k => exact ⟨(complete_mgr i _ _).1, complete_chunks h.chunks hen.2.2⟩
    | sendDone i n => exact ⟨(complete_mgr i _ _).1, complete_chunks h.chunks hempty⟩
    | notifyDone i => exact ⟨(complete_mgr i _ _).1, complete_chunks h.chunks hempty⟩
    | opFail i result => exact ⟨(complete_mgr i _ _).1, complete_chunks h.chunks hempty⟩
    | workerDone i responseStr =>
      simp only [effect, workerDone]
      cases s.tasks[i]? <;> exact ⟨rfl, h.chunks⟩
    | _ => exact ⟨rfl, h.chunks⟩
  exact ⟨fun q => (h.contexts q).spared (spares_of_mgr hmgr.1 q), hmgr.2⟩

lemma limited_run {as : List Action} (h : Run (Reactor.step D) Any listening as t) :
    Limited D t := by
  refine h.invariant_with (K := fun s => s.view.Sound) (I := Limited D) ?_
    (fun _ _ hr => sound_run hr)
    (fun _ _ _ hs _ hi _ hstep => hi.step hs hstep)
  exact ⟨fun _ => within_empty rfl rfl, nofun⟩

end steps

/-- An open connection keeps less than one request, and no chunk takes an input further than its own
length. -/
theorem input_bounded (D : Decoding) {as : List Action}
    (h : Run (Reactor.step D) Any listening as t) (p : ℕ) :
    ((t.ctx p).closing = false → (t.ctx p).input.length < kMaxRequestSize) ∧
    (t.ctx p).input.length < kMaxRequestSize + kBufSize ∧
    ∀ e ∈ t.cq, ((t.copyOut e p).ctx p).input.length < kMaxRequestSize + kBufSize := by
  have hlimited := limited_run h
  have hp := hlimited.contexts p
  refine ⟨fun hopen => D.wait_length (hp.waits hopen), hp.input, fun e he => ?_⟩
  have hchunk := hlimited.chunks e he
  by_cases hcopied : e.op = .recv ∧ 0 < e.result ∧ (t.ctx p).closing = false
  · have hcopy : (t.copyOut e p).ctx p = { t.ctx p with input := (t.ctx p).input ++ e.data } := by
      rw [copyOut, if_pos hcopied]
      exact ctx_modify (s := t) (fun ctx => { ctx with input := ctx.input ++ e.data })
    have hlen := D.wait_length (hp.waits hcopied.2.2)
    rw [hcopy]
    simp only [List.length_append]
    omega
  · rw [copyOut, if_neg hcopied]
    exact hp.input

theorem input_bounded_sample : ∃ t, exec (Reactor.step sampleDecoding) listening
    (acceptRun ++ [.enter 2, .recvDone 1 [8, 0, 0, 0, 10, 1], .wake, .handle]) = some t ∧
      (t.ctx 0).input = [8, 0, 0, 0, 10, 1] ∧ (t.ctx 0).input.length < kMaxRequestSize := by
  obtain ⟨t, ht, hd⟩ : ∃ t, exec (Reactor.step sampleDecoding) listening
      (acceptRun ++ [.enter 2, .recvDone 1 [8, 0, 0, 0, 10, 1], .wake, .handle]) = some t ∧
        decide ((t.ctx 0).closing = false ∧ (t.ctx 0).input = [8, 0, 0, 0, 10, 1]) = true :=
          exec_any (by decide)
  obtain ⟨hopen, hinput⟩ := of_decide_eq_true hd
  exact ⟨t, ht, hinput, (input_bounded sampleDecoding (.of_exec ht (by decide)) 0).1 hopen⟩

lemma raised_reading (hs : s.view.Sound) (h : Limited D s) {a : Action}
    (hstep : s.step D a = some t)
    (hraised : (s.ctx p).pendingReqs < (t.ctx p).pendingReqs) :
    (s.ctx p).pendingReqs < kMaxInflightPerConn := by
  cases change_step hs hstep (rfl : note s a t {} = _) with
  | steady hst =>
    rw [hst.pendingReqs] at hraised
    exact absurd hraised (lt_irrefl _)
  | accepted e _ _ _ _ hst =>
    rw [hst.pendingReqs] at hraised
    by_cases hp : p = s.mgr.idle.1
    · rw [hp, ctx_acquire] at hraised
      rw [hp]
      have hzero : (0 : ℤ) < kMaxInflightPerConn := by decide
      exact lt_trans hraised hzero
    · rw [ctx_acquire_ne hp] at hraised
      exact absurd hraised (lt_irrefl _)
  | read e q c he hop hctx hst hmapped =>
    rw [hst.pendingReqs, ctx_dispatch_apply] at hraised
    split_ifs at hraised with hp
    · subst hp
      have ha := (hs.active_of_find hmapped).1
      have hclosing : (s.ctx p).closing = false := ha.serving.closing
      by_cases hpaused : (s.ctx p).readPaused = true
      · exact absurd rfl (paused_ne ha hpaused he hop hctx)
      · exact (h.contexts p).reading hclosing (by simpa using hpaused)
    · exact absurd hraised (lt_irrefl _)
  | notified e rest _ _ _ hst =>
    have hfold :=
      (parallel_foldl (s := { s with cq := rest, readyCoros := [] }) s.readyCoros).pendingReqs p
    rw [hst.pendingReqs, show (({ s with cq := rest } : Reactor).handleNotify.ctx p).pendingReqs =
      _ from hfold] at hraised
    exact absurd hraised (lt_irrefl _)
  | answered i responseStr _ ht =>
    rw [ht, workerDone] at hraised
    cases hi : s.tasks[i]? with
    | none =>
      rw [hi] at hraised
      exact absurd hraised (lt_irrefl _)
    | some task =>
      rw [hi] at hraised
      exact absurd hraised (lt_irrefl _)
  | sent q n hst =>
    have hle : ((s.ctx q).advance n).pendingReqs ≤ (s.ctx q).pendingReqs := by
      rw [ConnectionContext.advance]
      split_ifs
      · exact (Int.sub_one_lt_of_le le_rfl).le
      · exact le_rfl
    rw [hst.pendingReqs, ctx_modify_apply] at hraised
    split_ifs at hraised with hp
    · subst hp
      exact absurd hraised (not_lt.mpr hle)
    · exact absurd hraised (lt_irrefl _)

/-- A receive is on its way only below the limit, and only there the requests in flight become
more, by those that one chunk completes. -/
theorem inflight_limited (D : Decoding) {as : List Action}
    (h : Run (Reactor.step D) Any listening as t) (p : ℕ) :
    (t.ctx p).pendingReqs < kMaxInflightPerConn + burst ∧
    (t.Active p → 0 < t.recvs p → (t.ctx p).pendingReqs < kMaxInflightPerConn) ∧
    ∀ a u, t.step D a = some u → (t.ctx p).pendingReqs < (u.ctx p).pendingReqs →
      (t.ctx p).pendingReqs < kMaxInflightPerConn := by
  have hlimited := limited_run h
  have hs := sound_run h
  refine ⟨(hlimited.contexts p).pendingReqs, fun hp hrecvs => ?_,
    fun a u hstep => raised_reading hs hlimited hstep⟩
  have ha := (active_iff hs).mp hp
  have harmed : t.recvs p = if (t.ctx p).readPaused then 0 else 1 := ha.recvs.armed
  have hclosing : (t.ctx p).closing = false := ha.serving.closing
  apply (hlimited.contexts p).reading hclosing
  by_contra hpaused
  rw [if_pos (by simpa using hpaused)] at harmed
  omega

def burstRun : List Action := acceptRun ++
  [.enter 2, .recvDone 1 (List.replicate 257 [8, 0, 0, 0, 10, 1, 85, 18, 1, 76, 32, 1]).flatten,
    .wake, .handle]

theorem limit_exceeded : ∃ t, exec (Reactor.step sampleDecoding) listening burstRun = some t ∧
    t.Active 0 ∧ kMaxInflightPerConn < (t.ctx 0).pendingReqs := by
  obtain ⟨t, ht, hd⟩ : ∃ t, exec (Reactor.step sampleDecoding) listening burstRun = some t ∧
      decide (t.find 5 = some 0 ∧ kMaxInflightPerConn < (t.ctx 0).pendingReqs) = true :=
        exec_any (by decide +kernel)
  obtain ⟨hfind, hexceeded⟩ := of_decide_eq_true hd
  have hs : t.view.Sound := sound_run (.of_exec ht (by decide +kernel))
  exact ⟨t, ht, (active_iff hs).mpr (hs.active_of_find hfind).1, hexceeded⟩

theorem inflight_limited_sample :
    ∃ t, exec (Reactor.step sampleDecoding) listening answerRun = some t ∧
    (t.ctx 0).pendingReqs < kMaxInflightPerConn + burst ∧ 0 < t.recvs 0 ∧
    (t.ctx 0).pendingReqs < kMaxInflightPerConn := by
  obtain ⟨t, ht, hd⟩ : ∃ t, exec (Reactor.step sampleDecoding) listening answerRun = some t ∧
      decide (t.find 5 = some 0 ∧ 0 < t.recvs 0) = true := exec_any (by decide)
  obtain ⟨hfind, hrecvs⟩ := of_decide_eq_true hd
  have hrun : Run (Reactor.step sampleDecoding) Any listening answerRun t := .of_exec ht (by decide)
  have hs := sound_run hrun
  obtain ⟨hbound, hreading, -⟩ := inflight_limited sampleDecoding hrun 0
  exact ⟨t, ht, hbound, hrecvs, hreading ((active_iff hs).mpr (hs.active_of_find hfind).1) hrecvs⟩

end Reactor

end KimRpc.Server
