import KimRpc.Server.Reactor

/-! The life of a connection context. A context is active, draining or idle; what the
handlers do to one context leaves the others as they are. The view of a reactor keeps
what this is about: the manager, the open files, how many operations of each kind are on
their way for each context, and the accepted descriptors not yet handled. -/

namespace KimRpc.Server

@[ext]
structure View where
  mgr : ConnectionManager
  files : ℕ → Option ℕ
  out : ℕ → OpType → ℕ
  arrivals : List ℕ
  stray : ℕ
  faulted : Bool

structure RecvSide (ctx : ConnectionContext) (n : ℕ) : Prop where
  armed : n = if ctx.readPaused then 0 else 1
  paused : ctx.readPaused = true → kMaxInflightPerConn ≤ ctx.pendingReqs

structure SendSide (ctx : ConnectionContext) (n : ℕ) : Prop where
  armed : n = if ctx.sending then 1 else 0
  written : ∀ front rest, ctx.outQueue = front :: rest → ctx.written < front.length
  unwritten : ctx.outQueue = [] → ctx.written = 0
  frames : ∀ frame ∈ ctx.outQueue, frame ≠ []

structure Alike (ctx ctx' : ConnectionContext) : Prop where
  fd : ctx'.fd = ctx.fd
  connId : ctx'.connId = ctx.connId
  socket : ctx'.socket = ctx.socket
  closing : ctx'.closing = ctx.closing
  inflight : ctx'.inflight = ctx.inflight

namespace View

variable (v w : View) (p q fd : ℕ)

def find : Option ℕ := v.mgr.find fd

def ctx : ConnectionContext := v.mgr.contexts p

structure Serving : Prop where
  mapped : v.find (v.ctx p).fd = some p
  opened : v.files (v.ctx p).fd = some (v.ctx p).socket
  closing : (v.ctx p).closing = false
  unpooled : p ∉ v.mgr.idlePool
  inflight : (v.ctx p).inflight = v.out p .recv + v.out p .send

structure Active : Prop where
  serving : v.Serving p
  recvs : RecvSide (v.ctx p) (v.out p .recv)
  sends : SendSide (v.ctx p) (v.out p .send)
  queued : (v.ctx p).sending = true ↔ (v.ctx p).outQueue ≠ []

structure Draining : Prop where
  unmapped : ∀ fd, v.find fd ≠ some p
  closing : (v.ctx p).closing = true
  unpooled : p ∉ v.mgr.idlePool
  inflight : (v.ctx p).inflight = 1
  last : v.out p .recv + v.out p .send = 1

structure Idle : Prop where
  unmapped : ∀ fd, v.find fd ≠ some p
  pooled : p ∈ v.mgr.idlePool
  recvs : v.out p .recv = 0
  sends : v.out p .send = 0

inductive Settled : Prop where
  | active (h : v.Active p)
  | draining (h : v.Draining p)
  | idle (h : v.Idle p)

structure World : Prop where
  maps : ∀ fd p, v.find fd = some p → p < v.mgr.allConns ∧ (v.ctx p).fd = fd
  fresh : ∀ p, v.mgr.allConns ≤ p → (∀ op, v.out p op = 0) ∧ p ∉ v.mgr.idlePool
  nodup : v.mgr.idlePool.Nodup
  arrived : ∀ fd ∈ v.arrivals, v.find fd = none ∧ v.files fd ≠ none
  apart : v.arrivals.Nodup
  kinds : v.stray = 0
  defined : v.faulted = false

structure Kept : Prop where
  world : v.World
  settled : ∀ q < v.mgr.allConns, q ≠ p → v.Settled q

structure Sound : Prop where
  world : v.World
  settled : ∀ q < v.mgr.allConns, v.Settled q

/-- In a handler: the other contexts are settled, and `p` is open but for `r` receives
and `n` sends that are still to be submitted for it. -/
structure Owing (r n : ℕ) : Prop where
  kept : v.Kept p
  serving : v.Serving p
  recvs : RecvSide (v.ctx p) (v.out p .recv + r)
  sends : SendSide (v.ctx p) (v.out p .send + n)
  queued : n = 0 → ((v.ctx p).sending = true ↔ (v.ctx p).outQueue ≠ [])

structure Agrees : Prop where
  ctx : w.ctx q = v.ctx q
  mapped : ∀ fd, w.find fd = some q ↔ v.find fd = some q
  files : ∀ fd, v.find fd = some q → w.files fd = v.files fd
  pooled : q ∈ w.mgr.idlePool ↔ q ∈ v.mgr.idlePool
  out : w.out q = v.out q

variable {v w p q fd}

lemma Settled.of_agrees (h : v.Settled q) (ha : Agrees v w q) : w.Settled q := by
  cases h with
  | active h =>
    have hm := h.serving.mapped
    refine .active ⟨⟨?_, ?_, ?_, ?_, ?_⟩, ?_, ?_, ?_⟩
    · rw [ha.ctx, ha.mapped]
      exact hm
    · rw [ha.ctx, ha.files _ hm]
      exact h.serving.opened
    · rw [ha.ctx]
      exact h.serving.closing
    · rw [ha.pooled]
      exact h.serving.unpooled
    · rw [ha.ctx, ha.out]
      exact h.serving.inflight
    · rw [ha.ctx, ha.out]
      exact h.recvs
    · rw [ha.ctx, ha.out]
      exact h.sends
    · rw [ha.ctx]
      exact h.queued
  | draining h =>
    refine .draining ⟨?_, ?_, ?_, ?_, ?_⟩
    · exact fun fd hfd => h.unmapped fd ((ha.mapped fd).mp hfd)
    · rw [ha.ctx]
      exact h.closing
    · rw [ha.pooled]
      exact h.unpooled
    · rw [ha.ctx]
      exact h.inflight
    · rw [ha.out]
      exact h.last
  | idle h =>
    refine .idle ⟨?_, ?_, ?_, ?_⟩
    · exact fun fd hfd => h.unmapped fd ((ha.mapped fd).mp hfd)
    · rw [ha.pooled]
      exact h.pooled
    · rw [ha.out]
      exact h.recvs
    · rw [ha.out]
      exact h.sends

lemma Kept.of_agrees (h : v.Kept p) (hw : w.World) (hall : w.mgr.allConns = v.mgr.allConns)
    (ha : ∀ q ≠ p, Agrees v w q) : w.Kept p :=
  ⟨hw, fun q hq hqp => (h.settled q (hall ▸ hq) hqp).of_agrees (ha q hqp)⟩

lemma Sound.kept (h : v.Sound) (p : ℕ) : v.Kept p := ⟨h.world, fun q hq _ => h.settled q hq⟩

lemma Kept.sound (h : v.Kept p) (hp : v.Settled p) : v.Sound := by
  refine ⟨h.world, fun q hq => ?_⟩
  by_cases hqp : q = p
  · exact hqp ▸ hp
  · exact h.settled q hq hqp

variable (v p fd)

def modify (f : ConnectionContext → ConnectionContext) : View := { v with mgr := v.mgr.modify p f }

def submit (op : OpType) : View :=
  { v with
    mgr := v.mgr.onSubmit p
    out := Function.update v.out p (Function.update (v.out p) op (v.out p op + 1)) }

def close : View :=
  match v.find fd with
  | none => v
  | some p => { v with mgr := v.mgr.close fd, files := Function.update v.files (v.ctx p).fd none }

variable {v p fd}

@[simp] lemma modify_ctx_self (f : ConnectionContext → ConnectionContext) :
    (v.modify p f).ctx p = f (v.ctx p) := by
  simp [modify, ctx, ConnectionManager.modify]

lemma modify_ctx_ne (f : ConnectionContext → ConnectionContext) (hq : q ≠ p) :
    (v.modify p f).ctx q = v.ctx q := by
  simp [modify, ctx, ConnectionManager.modify, hq]

lemma agrees_modify (f : ConnectionContext → ConnectionContext) (hq : q ≠ p) :
    Agrees v (v.modify p f) q :=
  ⟨modify_ctx_ne f hq, fun _ => Iff.rfl, fun _ _ => rfl, Iff.rfl, rfl⟩

lemma Kept.modify {f : ConnectionContext → ConnectionContext} (h : v.Kept p)
    (hf : (f (v.ctx p)).fd = (v.ctx p).fd) : (v.modify p f).Kept p := by
  refine h.of_agrees { h.world with maps := ?_ } rfl
    (fun q hq => agrees_modify f hq)
  intro fd q hq
  obtain ⟨hlt, hfd⟩ := h.world.maps fd q hq
  refine ⟨hlt, ?_⟩
  by_cases hqp : q = p
  · subst hqp
    rw [modify_ctx_self, hf, hfd]
  · rw [modify_ctx_ne f hqp, hfd]

lemma Serving.modify {f : ConnectionContext → ConnectionContext} (h : v.Serving p)
    (hf : Alike (v.ctx p) (f (v.ctx p))) : (v.modify p f).Serving p := by
  refine ⟨?_, ?_, ?_, h.unpooled, ?_⟩
  · rw [modify_ctx_self, hf.fd]
    exact h.mapped
  · rw [modify_ctx_self, hf.fd, hf.socket]
    exact h.opened
  · rw [modify_ctx_self, hf.closing]
    exact h.closing
  · rw [modify_ctx_self, hf.inflight]
    exact h.inflight

lemma modify_modify (f g : ConnectionContext → ConnectionContext) :
    (v.modify p f).modify p g = v.modify p (fun ctx => g (f ctx)) := by
  simp [View.modify, ConnectionManager.modify]

@[simp] lemma submit_ctx_self (op : OpType) :
    (v.submit p op).ctx p = { v.ctx p with inflight := (v.ctx p).inflight + 1 } :=
  modify_ctx_self (fun ctx => { ctx with inflight := ctx.inflight + 1 })

@[simp] lemma submit_out_self (op op' : OpType) :
    (v.submit p op).out p op' = if op' = op then v.out p op + 1 else v.out p op' := by
  simp [submit, Function.update_apply]

lemma submit_sending (op : OpType) :
    (v.submit p op).modify p (fun ctx => { ctx with sending := true }) =
    (v.modify p (fun ctx => { ctx with sending := true })).submit p op := by
  simp [View.submit, View.modify, ConnectionManager.onSubmit, ConnectionManager.modify]

lemma Kept.submit (h : v.Kept p) (hp : p < v.mgr.allConns) (op : OpType) :
    (v.submit p op).Kept p := by
  have hk := h.modify (f := fun ctx => { ctx with inflight := ctx.inflight + 1 }) rfl
  refine h.of_agrees { h.world with maps := hk.world.maps, fresh := ?_ } rfl ?_
  · intro q hq
    have hne : q ≠ p := by
      rintro rfl
      exact absurd hp (Nat.not_lt.mpr hq)
    refine ⟨fun op' => ?_, (h.world.fresh q hq).2⟩
    simpa [View.submit, hne] using (h.world.fresh q hq).1 op'
  · intro q hq
    have ha := agrees_modify (v := v) (fun ctx => { ctx with inflight := ctx.inflight + 1 }) hq
    exact ⟨ha.ctx, ha.mapped, ha.files, ha.pooled, by simp [View.submit, hq]⟩

lemma Serving.submit (h : v.Serving p) {op : OpType} (hop : op = .recv ∨ op = .send) :
    (v.submit p op).Serving p := by
  refine ⟨?_, ?_, ?_, h.unpooled, ?_⟩
  · rw [submit_ctx_self]
    exact h.mapped
  · rw [submit_ctx_self]
    exact h.opened
  · rw [submit_ctx_self]
    exact h.closing
  · rw [submit_ctx_self]
    rcases hop with rfl | rfl <;> simp [h.inflight] <;> omega

lemma close_mgr : (v.close fd).mgr = v.mgr.close fd := by
  unfold View.close
  cases h : v.find fd with
  | none => exact (ConnectionManager.close_of_none h).symm
  | some p => rfl

lemma close_find (fd' : ℕ) : (v.close fd).find fd' = if fd' = fd then none else v.find fd' := by
  rw [View.find, close_mgr]
  cases h : v.mgr.find fd with
  | none =>
    rw [ConnectionManager.close_of_none h]
    split_ifs with heq
    · rw [heq, h]
    · rfl
  | some p =>
    rw [ConnectionManager.close_of_find h]
    exact Function.update_apply _ _ _ _

section close

variable (hp : v.find fd = some p)
include hp

lemma close_ctx : (v.close fd).ctx = Function.update v.ctx p { v.ctx p with closing := true } := by
  unfold View.ctx
  rw [close_mgr, ConnectionManager.close_of_find hp]

lemma close_idlePool :
    (v.close fd).mgr.idlePool = if (v.ctx p).inflight = 0 then p :: v.mgr.idlePool
      else v.mgr.idlePool := by
  rw [close_mgr, ConnectionManager.close_of_find hp]
  rfl

lemma close_allConns : (v.close fd).mgr.allConns = v.mgr.allConns := by
  rw [close_mgr, ConnectionManager.close_of_find hp]

lemma close_files : (v.close fd).files = Function.update v.files (v.ctx p).fd none := by
  simp only [View.close, hp]

lemma close_rest : (v.close fd).out = v.out ∧ (v.close fd).arrivals = v.arrivals ∧
    (v.close fd).stray = v.stray ∧ (v.close fd).faulted = v.faulted := by
  simp only [View.close, hp, and_self]

end close

lemma Kept.close (h : v.Kept p) (hs : v.Serving p) (hle : v.out p .recv + v.out p .send ≤ 1) :
    (v.close (v.ctx p).fd).Sound := by
  have hp := hs.mapped
  have hlt := (h.world.maps _ _ hp).1
  have hctx := close_ctx hp
  have hpool := close_idlePool hp
  have hall := close_allConns hp
  have hfiles := close_files hp
  obtain ⟨hout, harr, hstray, hfault⟩ := close_rest hp
  have hfind : ∀ fd', (v.close (v.ctx p).fd).find fd' = _ := close_find
  generalize v.close (v.ctx p).fd = w at *
  have hunmapped : ∀ fd', w.find fd' ≠ some p := by
    intro fd' hfd'
    rw [hfind] at hfd'
    split_ifs at hfd' with heq
    exact heq (h.world.maps _ _ hfd').2.symm
  have hoff : ∀ q ≠ p, ∀ fd', v.find fd' = some q → fd' ≠ (v.ctx p).fd := by
    rintro q hq fd' hfd' rfl
    exact hq (Option.some.inj (hfd'.symm.trans hp))
  have hinpool : ∀ q ≠ p, q ∈ w.mgr.idlePool ↔ q ∈ v.mgr.idlePool := by
    intro q hq
    rw [hpool]
    split_ifs <;> simp [hq]
  have hagrees : ∀ q ≠ p, Agrees v w q := by
    refine fun q hq => ⟨?_, fun fd' => ?_, fun fd' hfd' => ?_, hinpool q hq, by rw [hout]⟩
    · rw [hctx, Function.update_of_ne hq]
    · rw [hfind]
      split_ifs with heq
      · simpa using fun hv => hoff q hq fd' hv heq
      · rfl
    · rw [hfiles, Function.update_of_ne (hoff q hq fd' hfd')]
  have hworld : w.World := by
    refine ⟨fun fd' q hq => ?_, fun q hq => ?_, ?_, fun fd' hfd' => ?_, harr ▸ h.world.apart, ?_,
      ?_⟩
    · have hqp : q ≠ p := fun hqp => hunmapped fd' (hqp ▸ hq)
      rw [hall, (hagrees q hqp).ctx]
      exact h.world.maps fd' q (((hagrees q hqp).mapped fd').mp hq)
    · rw [hall] at hq
      rw [hinpool q (by omega), hout]
      exact h.world.fresh q hq
    · rw [hpool]
      split_ifs
      · exact List.nodup_cons.mpr ⟨hs.unpooled, h.world.nodup⟩
      · exact h.world.nodup
    · have hv := h.world.arrived fd' (harr ▸ hfd')
      have hne : fd' ≠ (v.ctx p).fd := by
        rintro rfl
        rw [hp] at hv
        cases hv.1
      rw [hfind, hfiles, if_neg hne, Function.update_of_ne hne]
      exact hv
    · rw [hstray, h.world.kinds]
    · rw [hfault, h.world.defined]
  refine (h.of_agrees hworld hall hagrees).sound ?_
  have hinflight := hs.inflight
  by_cases hzero : (v.ctx p).inflight = 0
  · refine .idle ⟨hunmapped, ?_, ?_, ?_⟩
    · simp [hpool, hzero]
    · rw [hout]
      omega
    · rw [hout]
      omega
  · refine .draining ⟨hunmapped, ?_, ?_, ?_, ?_⟩
    · simp [hctx]
    · simpa [hpool, hzero] using hs.unpooled
    · simp only [hctx, Function.update_self]
      omega
    · rw [hout]
      omega

lemma Serving.lt (hs : v.Serving p) (hw : v.World) : p < v.mgr.allConns := (hw.maps _ _ hs.mapped).1

lemma Owing.sound (h : v.Owing p 0 0) : v.Sound :=
  h.kept.sound (.active ⟨h.serving, h.recvs, h.sends, h.queued rfl⟩)

lemma Active.owing (h : v.Active p) (hv : v.Sound) : v.Owing p 0 0 :=
  ⟨hv.kept p, h.serving, h.recvs, h.sends, fun _ => h.queued⟩

lemma Owing.close {r n : ℕ} (h : v.Owing p r n) (hrn : 1 ≤ r + n) :
    (v.close (v.ctx p).fd).Sound := by
  have hr := h.recvs.armed
  have hn := h.sends.armed
  apply h.kept.close h.serving
  split_ifs at hr hn <;> omega

lemma Owing.submitRecv {n : ℕ} (h : v.Owing p 1 n) : (v.submit p .recv).Owing p 0 n where
  kept := h.kept.submit (h.serving.lt h.kept.world) _
  serving := h.serving.submit (.inl rfl)
  recvs := by simpa using ⟨h.recvs.armed, h.recvs.paused⟩
  sends := by
    have hs := h.sends
    simpa using ⟨hs.armed, hs.written, hs.unwritten, hs.frames⟩
  queued := by simpa using h.queued

lemma Owing.sending {r : ℕ} (h : v.Owing p r 1) : (v.ctx p).sending = true ∧ v.out p .send = 0 := by
  have hn := h.sends.armed
  split_ifs at hn with hs
  exact ⟨hs, by omega⟩

lemma Owing.submitSend {r : ℕ} (h : v.Owing p r 1) (hq : (v.ctx p).outQueue ≠ []) :
    (v.submit p .send).Owing p r 0 where
  kept := h.kept.submit (h.serving.lt h.kept.world) _
  serving := h.serving.submit (.inr rfl)
  recvs := by
    have hr := h.recvs
    simpa using ⟨hr.armed, hr.paused⟩
  sends := by
    have hs := h.sends
    simpa using ⟨hs.armed, hs.written, hs.unwritten, hs.frames⟩
  queued := by simp [h.sending.1, hq]

lemma Owing.modify {f : ConnectionContext → ConnectionContext} {r n r' n' : ℕ} (h : v.Owing p r n)
    (hf : Alike (v.ctx p) (f (v.ctx p))) (hr : RecvSide (f (v.ctx p)) (v.out p .recv + r'))
    (hs : SendSide (f (v.ctx p)) (v.out p .send + n'))
    (hq : n' = 0 → ((f (v.ctx p)).sending = true ↔ (f (v.ctx p)).outQueue ≠ [])) :
    (v.modify p f).Owing p r' n' where
  kept := h.kept.modify hf.fd
  serving := h.serving.modify hf
  recvs := by
    rw [modify_ctx_self]
    exact hr
  sends := by
    rw [modify_ctx_self]
    exact hs
  queued := by
    rw [modify_ctx_self]
    exact hq

lemma Owing.startSending {r : ℕ} (h : v.Owing p r 1) :
    (v.modify p (fun ctx => { ctx with sending := true })).Owing p r 1 := by
  apply h.modify ⟨rfl, rfl, rfl, rfl, rfl⟩
  · exact ⟨h.recvs.armed, h.recvs.paused⟩
  · exact ⟨by simp [h.sending.2], h.sends.written, h.sends.unwritten, h.sends.frames⟩
  · exact nofun

lemma Owing.pause {n : ℕ} (h : v.Owing p 1 n)
    (hfull : kMaxInflightPerConn ≤ (v.ctx p).pendingReqs) :
    (v.modify p (fun ctx => { ctx with readPaused := true })).Owing p 0 n := by
  have hr := h.recvs.armed
  apply h.modify ⟨rfl, rfl, rfl, rfl, rfl⟩
  · refine ⟨?_, fun _ => hfull⟩
    rw [if_pos rfl]
    split_ifs at hr
    omega
  · exact ⟨h.sends.armed, h.sends.written, h.sends.unwritten, h.sends.frames⟩
  · exact h.queued

lemma Owing.read {n : ℕ} (g : ConnectionContext → ℤ) (input : ConnectionContext → Wire.Bytes)
    (h : v.Owing p 1 n) :
    (v.modify p (fun ctx => { ctx with pendingReqs := g ctx, input := input ctx })).Owing p 1
      n := by
  have hr := h.recvs.armed
  apply h.modify ⟨rfl, rfl, rfl, rfl, rfl⟩
  · refine ⟨hr, fun hpaused => ?_⟩
    rw [if_pos hpaused] at hr
    omega
  · exact ⟨h.sends.armed, h.sends.written, h.sends.unwritten, h.sends.frames⟩
  · exact h.queued

lemma Owing.unpause {n : ℕ} (h : v.Owing p 0 n) (hpaused : (v.ctx p).readPaused = true) :
    (v.modify p (fun ctx => { ctx with readPaused := false })).Owing p 1 n := by
  have hr := h.recvs.armed
  rw [if_pos hpaused] at hr
  apply h.modify ⟨rfl, rfl, rfl, rfl, rfl⟩
  · exact ⟨by simpa using hr, nofun⟩
  · exact ⟨h.sends.armed, h.sends.written, h.sends.unwritten, h.sends.frames⟩
  · exact h.queued

lemma Owing.stopSending {r : ℕ} (h : v.Owing p r 1) (hq : (v.ctx p).outQueue = []) :
    (v.modify p (fun ctx => { ctx with sending := false })).Owing p r 0 := by
  apply h.modify ⟨rfl, rfl, rfl, rfl, rfl⟩
  · exact ⟨h.recvs.armed, h.recvs.paused⟩
  · exact ⟨by simpa using h.sending.2, h.sends.written, h.sends.unwritten, h.sends.frames⟩
  · simp [hq]

lemma Owing.sent {r k : ℕ} {front : Wire.Bytes} {rest : List Wire.Bytes} (h : v.Owing p r 1)
    (hq : (v.ctx p).outQueue = front :: rest) (hk : k < front.length) :
    (v.modify p (fun ctx => { ctx with written := k })).Owing p r 1 := by
  apply h.modify ⟨rfl, rfl, rfl, rfl, rfl⟩
  · exact ⟨h.recvs.armed, h.recvs.paused⟩
  · refine ⟨h.sends.armed, ?_, ?_, h.sends.frames⟩
    · rintro front' rest' hq'
      cases hq.symm.trans hq'
      exact hk
    · simp [hq]
  · exact nofun

lemma Owing.popped {r : ℕ} {front : Wire.Bytes} {rest : List Wire.Bytes} (h : v.Owing p r 1)
    (hq : (v.ctx p).outQueue = front :: rest) (g : ConnectionContext → ℤ)
    (hg : (v.ctx p).readPaused = true → kMaxInflightPerConn ≤ g (v.ctx p)) :
    (v.modify p (fun ctx => { ctx with
      outQueue := rest, written := 0, pendingReqs := g ctx })).Owing p r 1 := by
  have hframes := h.sends.frames
  rw [hq] at hframes
  apply h.modify ⟨rfl, rfl, rfl, rfl, rfl⟩
  · exact ⟨h.recvs.armed, hg⟩
  · refine ⟨h.sends.armed, ?_, fun _ => rfl,
      fun frame hf => hframes frame (List.mem_cons_of_mem _ hf)⟩
    rintro front' rest' hq'
    apply List.length_pos_of_ne_nil
    apply hframes
    simp only at hq'
    simp [hq']
  · exact nofun

lemma Owing.resumed {front : Wire.Bytes} {rest : List Wire.Bytes} (h : v.Owing p 0 1)
    (hq : (v.ctx p).outQueue = front :: rest) (hpaused : (v.ctx p).readPaused = true) :
    ((v.modify p (fun ctx => { ctx with
      outQueue := rest, written := 0, pendingReqs := ctx.pendingReqs - 1 })).modify p
      (fun ctx => { ctx with readPaused := false })).Owing p 1 1 := by
  have hpopped := (h.unpause hpaused).popped
    (show (View.ctx _ p).outQueue = front :: rest by rw [modify_ctx_self]; exact hq)
    (fun ctx => ctx.pendingReqs - 1) (by rw [modify_ctx_self]; exact nofun)
  rw [modify_modify] at hpopped ⊢
  exact hpopped

variable (v p fd)

def acquire : View := { v with mgr := v.mgr.acquire fd ((v.files fd).getD 0) }

def complete (op : OpType) : View :=
  { v with
    mgr := (v.mgr.onComplete p).2
    out := Function.update v.out p (Function.update (v.out p) op (v.out p op - 1)) }

structure Vacant (m : ConnectionManager) : Prop where
  unmapped : ∀ fd, v.find fd ≠ some p
  out : ∀ op, op = .recv ∨ op = .send → v.out p op = 0
  lt : p < m.allConns
  grown : v.mgr.allConns ≤ m.allConns
  old : ∀ q ≠ p, q < m.allConns → q < v.mgr.allConns
  unpooled : p ∉ m.idlePool
  pool : ∀ q ≠ p, q ∈ m.idlePool ↔ q ∈ v.mgr.idlePool
  nodup : m.idlePool.Nodup

variable {v p fd}

lemma Sound.vacant (h : v.Sound) : v.Vacant v.mgr.idle.1 v.mgr.idle.2 := by
  cases hpool : v.mgr.idlePool with
  | nil =>
    rw [ConnectionManager.idle_of_nil hpool]
    obtain ⟨hout, hfree⟩ := h.world.fresh v.mgr.allConns le_rfl
    refine ⟨fun fd hfd => ?_, fun op _ => hout op, ?_, ?_, ?_, ?_, ?_, ?_⟩
    · exact absurd (h.world.maps fd _ hfd).1 (lt_irrefl _)
    · exact Nat.lt_succ_self _
    · exact Nat.le_succ _
    · intro q hq hlt
      exact lt_of_le_of_ne (Nat.le_of_lt_succ hlt) hq
    · exact hfree
    · exact fun q _ => Iff.rfl
    · exact h.world.nodup
  | cons p pool =>
    rw [ConnectionManager.idle_of_cons hpool]
    have hp : p ∈ v.mgr.idlePool := by simp [hpool]
    have hnodup := h.world.nodup
    rw [hpool, List.nodup_cons] at hnodup
    have hlt : p < v.mgr.allConns := by
      by_contra hge
      exact (h.world.fresh p (not_lt.mp hge)).2 hp
    have hidle : v.Idle p := by
      cases h.settled p hlt with
      | active ha => exact absurd hp ha.serving.unpooled
      | draining hd => exact absurd hp hd.unpooled
      | idle hi => exact hi
    refine ⟨hidle.unmapped, ?_, hlt, le_rfl, fun q _ hq => hq, hnodup.1, ?_, hnodup.2⟩
    · rintro op (rfl | rfl)
      · exact hidle.recvs
      · exact hidle.sends
    · intro q hq
      rw [hpool, List.mem_cons, or_iff_right hq]

lemma acquire_ctx : (v.acquire fd).ctx v.mgr.idle.1 = { (v.ctx v.mgr.idle.1).reset fd with
    connId := v.mgr.nextId, socket := (v.files fd).getD 0 } := by
  simp [View.acquire, View.ctx, ConnectionManager.acquire_eq]

lemma acquire_ctx_ne (hq : q ≠ v.mgr.idle.1) : (v.acquire fd).ctx q = v.ctx q := by
  simp [View.acquire, View.ctx, ConnectionManager.acquire_eq, hq]

lemma acquire_find (fd' : ℕ) :
    (v.acquire fd).find fd' = if fd' = fd then some v.mgr.idle.1 else v.find fd' := by
  simp only [View.acquire, View.find, ConnectionManager.find, ConnectionManager.acquire_eq,
    Function.update_apply]

lemma Sound.acquire (h : v.Sound) (hfree : v.find fd = none) (hopen : v.files fd ≠ none)
    (hnew : fd ∉ v.arrivals) :
    (v.acquire fd).Owing v.mgr.idle.1 1 0 := by
  have hv := h.vacant
  have hm := ConnectionManager.acquire_eq v.mgr fd ((v.files fd).getD 0)
  have hctx : (v.acquire fd).ctx _ = _ := acquire_ctx
  have hother : ∀ q ≠ v.mgr.idle.1, (v.acquire fd).ctx q = v.ctx q := fun q hq => acquire_ctx_ne hq
  have hfind : ∀ fd', (v.acquire fd).find fd' = _ := acquire_find
  generalize v.mgr.idle.1 = p at *
  generalize v.mgr.idle.2 = m at *
  have hagrees : ∀ q ≠ p, Agrees v (v.acquire fd) q := by
    refine fun q hq => ⟨hother q hq, fun fd' => ?_, fun _ _ => rfl, ?_, rfl⟩
    · rw [hfind]
      split_ifs with heq
      · simp [heq, hfree, hq.symm]
      · rfl
    · simpa [View.acquire, hm] using hv.pool q hq
  have hworld : (v.acquire fd).World := by
    refine { h.world with
        maps := fun fd' q hq => ?_, fresh := fun q hq => ?_, nodup := ?_, arrived := ?_ }
    · rw [hfind] at hq
      simp only [View.acquire, hm]
      split_ifs at hq with heq
      · cases hq
        exact ⟨hv.lt, by simp [View.ctx, ConnectionContext.reset, heq]⟩
      · have hne : q ≠ p := fun hqp => hv.unmapped fd' (hqp ▸ hq)
        obtain ⟨hlt, hfd⟩ := h.world.maps fd' q hq
        exact ⟨hlt.trans_le hv.grown, by simpa [View.ctx, hne] using hfd⟩
    · simp only [View.acquire, hm] at hq ⊢
      have hne : q ≠ p := by
        rintro rfl
        exact absurd hv.lt (not_lt.mpr hq)
      rw [hv.pool q hne]
      exact h.world.fresh q (hv.grown.trans hq)
    · simpa [View.acquire, hm] using hv.nodup
    · intro fd' hfd'
      rw [hfind, if_neg (fun heq : fd' = fd => hnew (heq ▸ hfd'))]
      exact h.world.arrived fd' hfd'
  refine ⟨⟨hworld, fun q hq hqp => ?_⟩, ⟨?_, ?_, ?_, ?_, ?_⟩, ⟨?_, ?_⟩, ⟨?_, ?_, ?_, ?_⟩, ?_⟩
  · refine (h.settled q (hv.old q hqp ?_)).of_agrees (hagrees q hqp)
    simpa [View.acquire, hm] using hq
  · rw [hctx, hfind]
    exact if_pos rfl
  · obtain ⟨k, hk⟩ := Option.ne_none_iff_exists'.mp hopen
    rw [hctx]
    simp [View.acquire, ConnectionContext.reset, hk]
  · rw [hctx]
    rfl
  · simpa [View.acquire, hm] using hv.unpooled
  · rw [hctx]
    simp [View.acquire, ConnectionContext.reset, hv.out]
  · rw [hctx]
    simp [View.acquire, ConnectionContext.reset, hv.out]
  · simp [hctx, ConnectionContext.reset]
  · rw [hctx]
    simp [View.acquire, ConnectionContext.reset, hv.out]
  · simp [hctx, ConnectionContext.reset]
  · simp [hctx, ConnectionContext.reset]
  · simp [hctx, ConnectionContext.reset]
  · simp [hctx, ConnectionContext.reset]

lemma Sound.copyIn (g : ConnectionContext → Wire.Bytes) (h : v.Sound) :
    (v.modify p (fun ctx => { ctx with input := g ctx })).Sound := by
  refine ⟨((h.kept p).modify rfl).world, fun q hq => ?_⟩
  by_cases hqp : q = p
  · subst hqp
    have hctx := modify_ctx_self (v := v) (p := q) (fun ctx => { ctx with input := g ctx })
    cases h.settled q hq with
    | active ha =>
      refine .active ⟨ha.serving.modify ⟨rfl, rfl, rfl, rfl, rfl⟩, ?_, ?_, ?_⟩
      · rw [hctx]
        exact ⟨ha.recvs.armed, ha.recvs.paused⟩
      · rw [hctx]
        exact ⟨ha.sends.armed, ha.sends.written, ha.sends.unwritten, ha.sends.frames⟩
      · rw [hctx]
        exact ha.queued
    | draining hd =>
      refine .draining ⟨hd.unmapped, ?_, hd.unpooled, ?_, hd.last⟩
      · rw [hctx]
        exact hd.closing
      · rw [hctx]
        exact hd.inflight
    | idle hi => exact .idle ⟨hi.unmapped, hi.pooled, hi.recvs, hi.sends⟩
  · exact (h.settled q hq).of_agrees (agrees_modify _ hqp)

lemma complete_out (op op' : OpType) :
    (v.complete p op).out p op' = if op' = op then v.out p op - 1 else v.out p op' := by
  simp [View.complete, Function.update_apply]

lemma complete_find (op : OpType) : (v.complete p op).find fd = v.find fd := by
  simp only [View.find, ConnectionManager.find, View.complete, ConnectionManager.onComplete_eq]

lemma complete_ctx (op : OpType) : (v.complete p op).ctx =
    Function.update v.ctx p { v.ctx p with inflight := (v.ctx p).inflight - 1 } := by
  simp only [View.ctx, View.complete, ConnectionManager.onComplete_eq]
  rfl

lemma complete_idlePool (op : OpType) : (v.complete p op).mgr.idlePool =
    if (v.ctx p).closing = true ∧
      (v.ctx p).inflight = 1 then p :: v.mgr.idlePool else v.mgr.idlePool := by
  unfold View.complete View.ctx
  rw [ConnectionManager.onComplete_eq]

lemma complete_allConns (op : OpType) : (v.complete p op).mgr.allConns = v.mgr.allConns := by
  simp only [View.complete, ConnectionManager.onComplete_eq]

lemma complete_agrees (op : OpType) (hq : q ≠ p) : Agrees v (v.complete p op) q := by
  refine ⟨?_, fun fd => by rw [complete_find], fun _ _ => rfl, ?_, by simp [View.complete, hq]⟩
  · rw [complete_ctx, Function.update_of_ne hq]
  · rw [complete_idlePool]
    split_ifs <;> simp [hq]

lemma World.complete {op : OpType} (h : v.World) (hlt : p < v.mgr.allConns)
    (hpool : p ∉ v.mgr.idlePool) :
    (v.complete p op).World := by
  refine { h with
      maps := fun fd q hq => ?_, fresh := fun q hq => ?_, nodup := ?_, arrived := fun fd hfd => ?_ }
  · rw [complete_find] at hq
    obtain ⟨hqlt, hfd⟩ := h.maps fd q hq
    rw [complete_allConns, complete_ctx]
    refine ⟨hqlt, ?_⟩
    by_cases hqp : q = p
    · subst hqp
      simpa using hfd
    · simpa [hqp] using hfd
  · rw [complete_allConns] at hq
    have ha := complete_agrees (v := v) (p := p) op (show q ≠ p by omega)
    rw [ha.out, ha.pooled]
    exact h.fresh q hq
  · rw [complete_idlePool]
    split_ifs
    · exact List.nodup_cons.mpr ⟨hpool, h.nodup⟩
    · exact h.nodup
  · rw [complete_find]
    exact h.arrived fd hfd

lemma Sound.complete_kept {op : OpType} (h : v.Sound) (hlt : p < v.mgr.allConns)
    (hpool : p ∉ v.mgr.idlePool) :
    (v.complete p op).Kept p :=
  (h.kept p).of_agrees (h.world.complete hlt hpool) (complete_allConns op)
  (fun _ hq => complete_agrees op hq)

lemma Active.complete {op : OpType} (ha : v.Active p) (h : v.Sound) (hop : op = .recv ∨ op = .send)
    (hout : v.out p op ≠ 0) :
    (v.complete p op).Owing p (if op = .recv then 1 else 0) (if op = .send then 1 else 0) := by
  have hs := ha.serving
  have hctx := complete_ctx (v := v) (p := p) op
  have hi := hs.inflight
  refine ⟨h.complete_kept (hs.lt h.world) hs.unpooled, ⟨?_, ?_, ?_, ?_, ?_⟩, ?_, ?_, ?_⟩
  · rw [hctx, complete_find]
    simpa using hs.mapped
  · rw [hctx]
    simpa [View.complete] using hs.opened
  · rw [hctx]
    simpa using hs.closing
  · rw [complete_idlePool, if_neg (by simp [hs.closing])]
    exact hs.unpooled
  · rw [hctx, complete_out, complete_out]
    rcases hop with rfl | rfl <;> simp [hi] <;> omega
  · have hr := ha.recvs
    rw [hctx, complete_out]
    rcases hop with rfl | rfl
    · have hone : v.out p .recv - 1 + 1 = v.out p .recv := by omega
      simpa [hone] using ⟨hr.armed, hr.paused⟩
    · simpa using ⟨hr.armed, hr.paused⟩
  · have hw := ha.sends
    rw [hctx, complete_out]
    rcases hop with rfl | rfl
    · simpa using ⟨hw.armed, hw.written, hw.unwritten, hw.frames⟩
    · have hone : v.out p .send - 1 + 1 = v.out p .send := by omega
      simpa [hone] using ⟨hw.armed, hw.written, hw.unwritten, hw.frames⟩
  · intro _
    simpa [hctx] using ha.queued

lemma Draining.complete {op : OpType} (hd : v.Draining p) (h : v.Sound) (hlt : p < v.mgr.allConns)
    (hop : op = .recv ∨ op = .send) (hout : v.out p op ≠ 0) : (v.complete p op).Sound := by
  have hlast := hd.last
  refine (h.complete_kept hlt hd.unpooled).sound (.idle ⟨fun fd => ?_, ?_, ?_, ?_⟩)
  · rw [complete_find]
    exact hd.unmapped fd
  · simp [complete_idlePool, hd.closing, hd.inflight]
  · rw [complete_out]
    rcases hop with rfl | rfl <;> simp <;> omega
  · rw [complete_out]
    rcases hop with rfl | rfl <;> simp <;> omega

lemma Sound.complete {op : OpType} (h : v.Sound) (hop : op = .recv ∨ op = .send)
    (hout : v.out p op ≠ 0) :
    ((v.mgr.onComplete p).1 = false ∧ v.Active p ∧
      (v.complete p op).Owing p (if op = .recv then 1 else 0) (if op = .send then 1 else 0)) ∨
    (v.mgr.onComplete p).1 = true ∧ v.Draining p ∧ (v.complete p op).Sound := by
  have hlt : p < v.mgr.allConns := by
    by_contra hge
    exact hout ((h.world.fresh p (not_lt.mp hge)).1 op)
  cases h.settled p hlt with
  | idle hi =>
    rcases hop with rfl | rfl
    · exact absurd hi.recvs hout
    · exact absurd hi.sends hout
  | active ha =>
    refine .inl ⟨?_, ha, ha.complete h hop hout⟩
    rw [ConnectionManager.onComplete_recycles]
    have hc : (v.mgr.contexts p).closing = false := ha.serving.closing
    simp [hc]
  | draining hd =>
    refine .inr ⟨?_, hd, hd.complete h hlt hop hout⟩
    rw [ConnectionManager.onComplete_recycles]
    exact decide_eq_true ⟨hd.closing, hd.inflight⟩

lemma Sound.active_of_find (h : v.Sound) (hp : v.find fd = some p) : v.Active p ∧
    (v.ctx p).fd = fd := by
  obtain ⟨hlt, hfd⟩ := h.world.maps fd p hp
  cases h.settled p hlt with
  | active ha => exact ⟨ha, hfd⟩
  | draining hd => exact absurd hp (hd.unmapped fd)
  | idle hi => exact absurd hp (hi.unmapped fd)

lemma Sound.handled {arrivals : List ℕ} (h : v.Sound) (hsub : arrivals.Sublist v.arrivals) :
    ({ v with arrivals := arrivals } : View).Sound := by
  refine ⟨{ h.world with arrived := ?_, apart := h.world.apart.sublist hsub }, fun q hq => ?_⟩
  · exact fun fd hfd => h.world.arrived fd (hsub.subset hfd)
  · exact (h.settled q hq).of_agrees ⟨rfl, fun _ => Iff.rfl, fun _ _ => rfl, Iff.rfl, rfl⟩

section push

variable {data : Wire.Bytes} (ha : v.Active p) (hdata : data ≠ [])
include ha hdata

lemma Active.push_front {front : Wire.Bytes} {rest : List Wire.Bytes}
    (hq : (v.ctx p).outQueue ++ [data] = front :: rest) : (v.ctx p).written < front.length := by
  cases hold : (v.ctx p).outQueue with
  | nil =>
    rw [hold] at hq
    cases hq
    rw [ha.sends.unwritten hold]
    exact List.length_pos_of_ne_nil hdata
  | cons front' rest' =>
    rw [hold] at hq
    cases hq
    exact ha.sends.written _ _ hold

lemma Active.push_frames : ∀ frame ∈ (v.ctx p).outQueue ++ [data], frame ≠ [] := by
  intro frame hframe
  rcases List.mem_append.mp hframe with hold | hlast
  · exact ha.sends.frames frame hold
  · rw [List.mem_singleton.mp hlast]
    exact hdata

lemma Active.push (h : v.Sound) (hs : (v.ctx p).sending = true) :
    (v.modify p (fun ctx => { ctx with outQueue := ctx.outQueue ++ [data] })).Owing p 0 0 := by
  apply (ha.owing h).modify ⟨rfl, rfl, rfl, rfl, rfl⟩
  · exact ⟨ha.recvs.armed, ha.recvs.paused⟩
  · exact ⟨ha.sends.armed, fun _ _ hq => ha.push_front hdata hq, by simp, ha.push_frames hdata⟩
  · simp [hs]

lemma Active.push_first (h : v.Sound) (hs : (v.ctx p).sending = false) :
    ((v.modify p (fun ctx => { ctx with outQueue := ctx.outQueue ++ [data] })).modify p
      (fun ctx => { ctx with sending := true })).Owing p 0 1 := by
  have hnone := ha.sends.armed
  rw [if_neg (by simp [hs])] at hnone
  rw [modify_modify]
  apply (ha.owing h).modify ⟨rfl, rfl, rfl, rfl, rfl⟩
  · exact ⟨ha.recvs.armed, ha.recvs.paused⟩
  · exact ⟨by simp [hnone], fun _ _ hq => ha.push_front hdata hq, by simp, ha.push_frames hdata⟩
  · exact nofun

end push

lemma Active.push_close {data : Wire.Bytes} (ha : v.Active p) (h : v.Sound)
    (hs : (v.ctx p).sending = false) :
    ((v.modify p (fun ctx => { ctx with outQueue := ctx.outQueue ++ [data] })).close
      (v.ctx p).fd).Sound := by
  have hnone := ha.sends.armed
  have hle := ha.recvs.armed
  have hkept :=
    (h.kept p).modify (f := fun ctx => { ctx with outQueue := ctx.outQueue ++ [data] }) rfl
  have hclosed := hkept.close (ha.serving.modify ⟨rfl, rfl, rfl, rfl, rfl⟩) ?_
  · rw [modify_ctx_self] at hclosed
    exact hclosed
  · show v.out p .recv + v.out p .send ≤ 1
    rw [hnone, hle, hs]
    split_ifs <;> simp_all

variable (v fd) in
def arrive (socket : ℕ) : View :=
  { v with files := Function.update v.files fd (some socket), arrivals := v.arrivals ++ [fd] }

lemma Sound.arrive {socket : ℕ} (h : v.Sound) (hf : v.files fd = none) :
    (v.arrive fd socket).Sound := by
  have hoff : ∀ fd' q, v.find fd' = some q → fd' ≠ fd := by
    rintro fd' q hq rfl
    obtain ⟨ha, hfd⟩ := h.active_of_find hq
    have hopen := ha.serving.opened
    rw [hfd, hf] at hopen
    cases hopen
  have hfree : v.find fd = none := by
    rw [Option.eq_none_iff_forall_ne_some]
    exact fun q hq => hoff fd q hq rfl
  have hnew : fd ∉ v.arrivals := fun hmem => (h.world.arrived fd hmem).2 hf
  refine ⟨{ h.world with arrived := fun fd' hfd' => ?_, apart := ?_ }, fun q hq => ?_⟩
  · rcases List.mem_append.mp hfd' with hold | hlast
    · have hne : fd' ≠ fd := fun heq => hnew (heq ▸ hold)
      refine ⟨(h.world.arrived fd' hold).1, ?_⟩
      simpa [View.arrive, hne] using (h.world.arrived fd' hold).2
    · rw [List.mem_singleton.mp hlast]
      exact ⟨hfree, by simp [View.arrive]⟩
  · refine List.nodup_append.mpr ⟨h.world.apart, List.nodup_singleton fd, ?_⟩
    rintro fd' hfd' _ hlast rfl
    exact hnew (List.mem_singleton.mp hlast ▸ hfd')
  · refine (h.settled q hq).of_agrees ⟨rfl, fun _ => Iff.rfl, fun fd' hfd' => ?_, Iff.rfl, rfl⟩
    exact Function.update_of_ne (hoff fd' q hfd') _ _

end View

end KimRpc.Server
