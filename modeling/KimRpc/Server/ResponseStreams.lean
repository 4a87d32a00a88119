import KimRpc.Server.Journal

/-! The bytes of the responses of a connection. The kernel takes them from one send at a
time, which offers what is left of the first response of the queue. -/

namespace KimRpc.Server

open Library.Runs Wire

namespace Reactor

variable {D : Decoding} (s t : Reactor) (p : ℕ)

def acknowledged : ℕ :=
  ((s.cq.filter (fun e => (e.ctx, e.op) = (some p, .send))).map (fun e => e.result.toNat)).sum

structure Streamed (coros : List Coro) (taken : Bytes) : Prop where
  queued : ∀ e ∈ s.sq, (e.ctx, e.op) = (some p, .send) → e.data = (s.ctx p).unsent
  inKernel : ∀ o ∈ s.ops, (o.sqe.ctx, o.sqe.op) = (some p, .send) → o.sqe.data = (s.ctx p).unsent
  completed : s.acknowledged p ≤ (s.ctx p).unsent.length
  behind : taken <+: coros.flatMap Coro.frame
  level : p ∉ s.mgr.idlePool → ∃ sent, coros.map Coro.frame = sent ++ (s.ctx p).outQueue ∧
    taken = sent.flatten ++ ((s.ctx p).outQueue.headD []).take
      ((s.ctx p).written + s.acknowledged p)

variable {s t p} {coros : List Coro} {taken : Bytes}

lemma sends_le (h : s.view.Sound) (p : ℕ) : s.sends p ≤ 1 := by
  by_cases hp : p < s.mgr.allConns
  · cases h.settled p hp with
    | active ha =>
      have hsends : s.sends p = if (s.ctx p).sending then 1 else 0 := ha.sends.armed
      split_ifs at hsends <;> omega
    | draining hd =>
      have hlast : s.recvs p + s.sends p = 1 := hd.last
      omega
    | idle hi =>
      have hsends : s.sends p = 0 := hi.sends
      omega
  · have hfresh : s.sends p = 0 := (h.world.fresh p (not_lt.mp hp)).1 .send
    omega

lemma sends_of_pooled (h : s.view.Sound) (hp : p ∈ s.mgr.idlePool) : s.sends p = 0 := by
  have hlt : p < s.mgr.allConns := by
    by_contra hge
    exact (h.world.fresh p (not_lt.mp hge)).2 hp
  cases h.settled p hlt with
  | active ha => exact absurd hp ha.serving.unpooled
  | draining hd => exact absurd hp hd.unpooled
  | idle hi => exact hi.sends

lemma sends_of_empty (ha : s.view.Active p) (hq : (s.ctx p).outQueue = []) : s.sends p = 0 := by
  have hsends : s.sends p = if (s.ctx p).sending then 1 else 0 := ha.sends.armed
  rw [hsends, if_neg]
  intro hsending
  exact ha.queued.mp hsending hq

lemma unsent_of_sends (h : s.sends p = 0) :
    (∀ e ∈ s.sq, (e.ctx, e.op) ≠ (some p, .send)) ∧
    (∀ o ∈ s.ops, (o.sqe.ctx, o.sqe.op) ≠ (some p, .send)) ∧
      ∀ e ∈ s.cq, (e.ctx, e.op) ≠ (some p, .send) := by
  have hnone : (some p, OpType.send) ∉ s.tags := List.count_eq_zero.mp h
  simp only [tags, List.mem_append, List.mem_map, not_or, not_exists, not_and] at hnone
  exact ⟨hnone.1.1, hnone.1.2, hnone.2⟩

lemma acknowledged_of_none (h : ∀ e ∈ s.cq, (e.ctx, e.op) ≠ (some p, .send)) :
    s.acknowledged p = 0 := by
  rw [acknowledged, List.filter_eq_nil_iff.mpr]
  · rfl
  · intro e he
    simpa using h e he

lemma Streamed.of_sends (h : s.sends p = 0) (hbehind : taken <+: coros.flatMap Coro.frame)
    (hlevel : p ∉ s.mgr.idlePool → ∃ sent, coros.map Coro.frame = sent ++ (s.ctx p).outQueue ∧
      taken = sent.flatten ++ ((s.ctx p).outQueue.headD []).take (s.ctx p).written) :
    Streamed s p coros taken := by
  obtain ⟨hsq, hops, hcq⟩ := unsent_of_sends h
  have hack := acknowledged_of_none hcq
  refine ⟨fun e he hsend => absurd hsend (hsq e he), fun o ho hsend => absurd hsend (hops o ho), ?_,
    hbehind, ?_⟩
  · omega
  · rw [hack]
    exact hlevel

lemma behind_of_level {queue : List Bytes} {n : ℕ}
    (h : ∃ sent, coros.map Coro.frame = sent ++ queue ∧
    taken = sent.flatten ++ (queue.headD []).take n) : taken <+: coros.flatMap Coro.frame := by
  obtain ⟨sent, hmap, rfl⟩ := h
  rw [List.flatMap_def, hmap, List.flatten_append, List.prefix_append_right_inj]
  cases queue with
  | nil => simp
  | cons front rest =>
    apply (List.take_prefix n front).trans
    exact List.prefix_append front rest.flatten

lemma Streamed.move (h : Streamed s p coros taken) (hq : (t.ctx p).outQueue = (s.ctx p).outQueue)
    (hw : (t.ctx p).written = (s.ctx p).written) (hpool : p ∈ s.mgr.idlePool → p ∈ t.mgr.idlePool)
    (hsq : ∀ e ∈ t.sq, (e.ctx, e.op) = (some p, .send) → e ∈ s.sq ∨ e.data = (s.ctx p).unsent)
    (hops : ∀ o ∈ t.ops, o ∈ s.ops ∨ o.sqe ∈ s.sq) (hle : t.acknowledged p ≤ s.acknowledged p)
    (hack : p ∉ t.mgr.idlePool → t.acknowledged p = s.acknowledged p) :
    Streamed t p coros taken := by
  have hunsent : (t.ctx p).unsent = (s.ctx p).unsent := by
    rw [ConnectionContext.unsent, hq, hw, ConnectionContext.unsent]
  refine ⟨fun e he hsend => ?_, fun o ho hsend => ?_, ?_, h.behind, fun hp => ?_⟩
  · rw [hunsent]
    rcases hsq e he hsend with hold | hnew
    · exact h.queued e hold hsend
    · exact hnew
  · rw [hunsent]
    rcases hops o ho with hold | hnew
    · exact h.inKernel o hold hsend
    · exact h.queued o.sqe hnew hsend
  · rw [hunsent]
    exact hle.trans h.completed
  · rw [hq, hw, hack hp]
    exact h.level (fun hs => hp (hpool hs))

lemma Streamed.calm (h : Streamed s p coros taken) (hc : Calm s t) : Streamed t p coros taken := by
  have hack : t.acknowledged p = s.acknowledged p := by
    rw [acknowledged, hc.cq, acknowledged]
  refine h.move (hc.outQueue p) (hc.written p) (hc.pooled p) ?_ ?_ hack.le (fun _ => hack)
  · intro e he hsend
    simp only [Prod.mk.injEq] at hsend
    rcases hc.offered e he hsend.2 with hold | ⟨q, hq, hdata⟩
    · exact .inl hold
    · cases Option.some.inj (hsend.1.symm.trans hq)
      exact .inr hdata
  · rw [hc.ops]
    exact fun o ho => .inl ho

lemma Streamed.push (ha : s.view.Active p) (h : Streamed s p coros taken) (c : Coro) :
    Streamed (s.modify p (fun ctx => { ctx with outQueue := ctx.outQueue ++ [c.frame] })) p
      (coros ++ [c]) taken := by
  obtain ⟨sent, hmap, htaken⟩ := h.level ha.serving.unpooled
  have hbehind : taken <+: (coros ++ [c]).flatMap Coro.frame := by
    rw [List.flatMap_append]
    exact h.behind.trans (List.prefix_append _ _)
  have hctx :=
    ctx_modify (s := s) (p := p) (fun ctx => { ctx with outQueue := ctx.outQueue ++ [c.frame] })
  have hsends : (s.modify p (fun ctx => { ctx with outQueue := ctx.outQueue ++ [c.frame] })).sends
      p = s.sends p := rfl
  have hack :
      (s.modify p (fun ctx => { ctx with outQueue := ctx.outQueue ++ [c.frame] })).acknowledged p =
      s.acknowledged p := rfl
  have hqueued := h.queued
  have hinKernel := h.inKernel
  have hcompleted := h.completed
  cases hq : (s.ctx p).outQueue with
  | nil =>
    have hnone := sends_of_empty ha hq
    have hwritten : (s.ctx p).written = 0 := ha.sends.unwritten hq
    refine .of_sends (hsends.trans hnone) hbehind (fun _ => ⟨sent, ?_, ?_⟩)
    · rw [hctx, List.map_append, hmap, hq, List.append_assoc]
      rfl
    · rw [htaken, hctx, hq, hwritten]
      simp
  | cons front rest =>
    have hunsent :
        ((s.modify p (fun ctx => { ctx with outQueue := ctx.outQueue ++ [c.frame] })).ctx
          p).unsent =
        (s.ctx p).unsent := by
      rw [hctx]
      simp [ConnectionContext.unsent, hq]
    refine ⟨?_, ?_, ?_, hbehind, fun _ => ⟨sent, ?_, ?_⟩⟩
    · rw [hunsent]
      exact hqueued
    · rw [hunsent]
      exact hinKernel
    · rw [hunsent, hack]
      exact hcompleted
    · rw [hctx, List.map_append, hmap, List.append_assoc]
      rfl
    · rw [hack, hctx, htaken, hq]
      rfl

lemma streamed_resume (hs : s.view.Sound) (h : Streamed s p coros taken) (c : Coro) :
    Streamed (s.resume c) p (coros ++ if s.target c = some p then [c] else []) taken := by
  cases htarget : s.target c with
  | none =>
    rw [resume_of_none htarget]
    simpa using h
  | some q =>
    refine Streamed.calm ?_ (calm_resume htarget)
    obtain ⟨_, hfind, _⟩ := target_find htarget
    by_cases hqp : q = p
    · subst hqp
      simp only [↓reduceIte]
      exact h.push (hs.active_of_find hfind).1 c
    · have hctx :=
        ctx_modify_apply (s := s) (p := q) (fun ctx => { ctx with
          outQueue := ctx.outQueue ++ [c.frame] }) p
      rw [if_neg (Ne.symm hqp)] at hctx
      simp only [Option.some.injEq, hqp, ↓reduceIte, List.append_nil]
      refine h.move ?_ ?_ (fun hp => hp) (fun _ he _ => .inl he) (fun _ ho => .inl ho) le_rfl
        (fun _ => rfl)
      · rw [hctx]
      · rw [hctx]

lemma pushed_cons (s : Reactor) (c : Coro) (cs : List Coro) :
    Journal.pushed p (s.resumptions (c :: cs)) =
    (if s.target c = some p then [c] else []) ++
      Journal.pushed p ((s.resume c).resumptions cs) := by
  simp only [Journal.pushed, resumptions, List.filter_cons]
  split_ifs <;> simp_all

lemma streamed_resumptions (cs : List Coro) (hs : s.view.Sound) (h : Streamed s p coros taken) :
    Streamed (cs.foldl resume s) p (coros ++ Journal.pushed p (s.resumptions cs)) taken := by
  induction cs generalizing s coros with
  | nil =>
    rw [resumptions, Journal.pushed, List.filter_nil, List.map_nil, List.append_nil]
    exact h
  | cons c cs ih =>
    rw [pushed_cons, ← List.append_assoc]
    exact ih (sound_resume hs) (streamed_resume hs h c)

lemma streamed_acquire {fd : ℕ} (hs : s.view.Sound) :
    Streamed (s.acquire fd) s.mgr.idle.1 [] [] := by
  have hv : s.view.Vacant s.mgr.idle.1 s.mgr.idle.2 := hs.vacant
  have hsends : (s.acquire fd).sends s.mgr.idle.1 = 0 := hv.out .send (.inr rfl)
  have hctx := ctx_acquire s fd
  refine .of_sends hsends List.prefix_rfl (fun _ => ⟨[], ?_, ?_⟩)
  · rw [hctx]
    rfl
  · rw [hctx]
    rfl

lemma Streamed.acquire {fd : ℕ} (hs : s.view.Sound) (h : Streamed s p coros taken)
    (hp : p ≠ s.mgr.idle.1) :
    Streamed (s.acquire fd) p coros taken := by
  have hv : s.view.Vacant s.mgr.idle.1 s.mgr.idle.2 := hs.vacant
  refine h.move ?_ ?_ ?_ (fun _ he _ => .inl he) (fun _ ho => .inl ho) le_rfl (fun _ => rfl)
  · rw [ctx_acquire_ne hp]
  · rw [ctx_acquire_ne hp]
  · intro hpool
    have hold := (hv.pool p hp).mpr hpool
    simp only [Reactor.acquire, ConnectionManager.acquire_eq]
    exact hold

lemma Streamed.submit_none {op : OpType} (h : Streamed s p coros taken)
    (hsubmit : s.submit ⟨op, 0, none, [], 0⟩ = some t) : Streamed t p coros taken := by
  cases submit_eq hsubmit
  refine h.move rfl rfl (fun hp => hp) ?_ (fun _ ho => .inl ho) le_rfl (fun _ => rfl)
  intro e he hsend
  rcases List.mem_append.mp he with hold | hnew
  · exact .inl hold
  · simp [List.mem_singleton.mp hnew] at hsend

lemma Streamed.retryNotify (h : Streamed s p coros taken) :
    Streamed s.retryNotify p coros taken := by
  unfold Reactor.retryNotify submitNotifyRead
  cases hsubmit : s.submit ⟨.notify, 0, none, [], 0⟩ with
  | none => exact { h with }
  | some t => exact h.submit_none hsubmit

lemma Streamed.retryDeferred (h : Streamed s p coros taken) :
    Streamed s.retryDeferred p coros taken := by
  have haccept : ∀ u : Reactor, Streamed u p coros taken → Streamed (if u.acceptPending then
      (u.submitAccept.map (fun t => { t with acceptPending := false })).getD u
        else u) p coros taken := by
    intro u hu
    split_ifs
    · cases hsubmit : u.submitAccept with
      | none => exact hu
      | some t => exact { hu.submit_none hsubmit with }
    · exact hu
  have hnotify : ∀ u : Reactor, Streamed u p coros taken → Streamed (if u.notifyPending then
      (u.submitNotifyRead.map (fun t => { t with notifyPending := false })).getD u
        else u) p coros taken := by
    intro u hu
    split_ifs
    · cases hsubmit : u.submitNotifyRead with
      | none => exact hu
      | some t => exact { hu.submit_none hsubmit with }
    · exact hu
  exact { hnotify _ (haccept s h) with }

lemma Streamed.handOver (h : Streamed s p coros taken) (n : ℕ) :
    Streamed (s.handOver n) p coros taken := by
  refine h.move rfl rfl (fun hp => hp) ?_ ?_ le_rfl (fun _ => rfl)
  · exact fun e he _ => .inl (List.mem_of_mem_drop he)
  · intro o ho
    rcases List.mem_append.mp ho with hold | hnew
    · exact .inl hold
    · obtain ⟨e, he, rfl⟩ := List.mem_map.mp hnew
      exact .inr (List.mem_of_mem_take he)

lemma acknowledged_complete {o : Op} {i : ℕ} (result : ℤ) (data : Bytes) (hi : s.ops[i]? = some o)
    (p : ℕ) :
    (s.complete i result data).acknowledged p =
      s.acknowledged p + if (o.sqe.ctx, o.sqe.op) = (some p, .send) then result.toNat else 0 := by
  simp only [acknowledged, complete, hi, List.filter_append, List.map_append, List.sum_append,
    List.filter_cons,
    List.filter_nil]
  split_ifs <;> simp_all

lemma Streamed.complete {o : Op} {i : ℕ} (h : Streamed s p coros taken) (result : ℤ) (data : Bytes)
    (hi : s.ops[i]? = some o) (hresult : (o.sqe.ctx, o.sqe.op) = (some p, .send) → result ≤ 0) :
    Streamed (s.complete i result data) p coros taken := by
  have hack := acknowledged_complete result data hi p
  have hsame : (s.complete i result data).acknowledged p = s.acknowledged p := by
    split_ifs at hack with hsend
    · have hneg := hresult hsend
      omega
    · omega
  have hshape : s.complete i result data =
      { s with ops := s.ops.eraseIdx i, cq := s.cq ++ [⟨o.sqe.op, o.sqe.ctx, result, data⟩] } := by
    simp only [Reactor.complete, hi]
  rw [hshape] at hsame ⊢
  refine h.move rfl rfl (fun hp => hp) (fun _ he _ => .inl he) (fun o' ho' => .inl ?_) hsame.le
    (fun _ => hsame)
  exact List.mem_of_mem_eraseIdx ho'

lemma Streamed.take {o : Op} {i n : ℕ} (hs : s.view.Sound) (h : Streamed s p coros taken)
    (hi : s.ops[i]? = some o)
    (hsend : (o.sqe.ctx, o.sqe.op) = (some p, .send)) (hn : n ≤ o.sqe.data.length) :
    Streamed (s.complete i n []) p coros (taken ++ o.sqe.data.take n) := by
  have hmem : o ∈ s.ops := List.mem_of_getElem? hi
  have hdata := h.inKernel o hmem hsend
  have hack : s.acknowledged p = 0 := by
    apply acknowledged_of_none
    intro e he heq
    have hle := sends_le hs p
    have hops : 0 < (s.ops.map (fun o => (o.sqe.ctx, o.sqe.op))).count (some p, .send) :=
      List.count_pos_iff.mpr (List.mem_map.mpr ⟨o, hmem, hsend⟩)
    have hcqs : 0 < (s.cq.map (fun e => (e.ctx, e.op))).count (some p, .send) :=
      List.count_pos_iff.mpr (List.mem_map.mpr ⟨e, he, heq⟩)
    simp only [sends, tags, List.count_append] at hle
    omega
  have hunpooled : p ∉ s.mgr.idlePool := by
    intro hp
    have hnone := sends_of_pooled hs hp
    exact (unsent_of_sends hnone).2.1 o hmem hsend
  have hack' := acknowledged_complete n [] hi p
  rw [if_pos hsend, hack, zero_add, Int.toNat_natCast] at hack'
  obtain ⟨sent, hmap, htaken⟩ := h.level hunpooled
  have hshape : s.complete i n [] =
      { s with ops := s.ops.eraseIdx i, cq := s.cq ++ [⟨o.sqe.op, o.sqe.ctx, n, []⟩] } := by
    simp only [Reactor.complete, hi]
  have hlevel : ∃ sent, coros.map Coro.frame = sent ++ (s.ctx p).outQueue ∧
      taken ++ o.sqe.data.take n =
      sent.flatten ++ ((s.ctx p).outQueue.headD []).take ((s.ctx p).written + n) := by
    refine ⟨sent, hmap, ?_⟩
    rw [htaken, hack, add_zero, hdata, ConnectionContext.unsent, List.take_add, List.append_assoc]
  rw [hdata] at hn
  rw [hshape] at hack' ⊢
  refine ⟨h.queued, fun o' ho' => h.inKernel o' (List.mem_of_mem_eraseIdx ho'), ?_,
    behind_of_level hlevel, fun _ => ?_⟩
  · rw [hack']
    exact hn
  · rw [hack']
    exact hlevel

section turn

variable {e : Cqe} {rest : List Cqe} (hcq : s.cq = e :: rest)
include hcq

lemma acknowledged_pop (p : ℕ) : s.acknowledged p =
    (if (e.ctx, e.op) = (some p, .send) then e.result.toNat else 0) +
      ({ s with cq := rest } : Reactor).acknowledged p := by
  simp only [acknowledged, hcq, List.filter_cons]
  split_ifs <;> simp_all

lemma Streamed.pop (h : Streamed s p coros taken) (he : (e.ctx, e.op) ≠ (some p, .send)) :
    Streamed { s with cq := rest } p coros taken := by
  have hack : ({ s with cq := rest } : Reactor).acknowledged p = s.acknowledged p := by
    rw [acknowledged_pop hcq p, if_neg he, zero_add]
  exact h.move rfl rfl (fun hp => hp) (fun _ he _ => .inl he) (fun _ ho => .inl ho) hack.le
    (fun _ => hack)

lemma Streamed.turn_calm (h : Streamed s p coros taken) (hc : Calm { s with cq := rest } t)
    (hctx : ∀ p, e.ctx = some p → e.op = .send → (0 < e.result → p ∈ t.mgr.idlePool) ∧
      ∀ fd, t.find fd ≠ some p) :
    Streamed t p coros taken := by
  have hack : t.acknowledged p = ({ s with cq := rest } : Reactor).acknowledged p := by
    rw [acknowledged, hc.cq, acknowledged]
  have hpop := acknowledged_pop hcq p
  refine h.move (hc.outQueue p) (hc.written p) (hc.pooled p) ?_ ?_ (by omega) (fun hp => ?_)
  · intro e' he' hsend
    simp only [Prod.mk.injEq] at hsend
    rcases hc.offered e' he' hsend.2 with hold | ⟨q, hq, hdata⟩
    · exact .inl hold
    · cases Option.some.inj (hsend.1.symm.trans hq)
      exact .inr hdata
  · rw [hc.ops]
    exact fun o ho => .inl ho
  · split_ifs at hpop with he
    · simp only [Prod.mk.injEq] at he
      have hresult : ¬ 0 < e.result := fun hpos => hp ((hctx p he.1 he.2).1 hpos)
      omega
    · omega

lemma Streamed.sent (hs : s.view.Sound) (h : Streamed s p coros taken) (hop : e.op = .send)
    (hctx : e.ctx = some p)
    (hmapped : s.find (s.ctx p).fd = some p) (hq : (s.ctx p).outQueue ≠ []) :
    Streamed (({ s with cq := rest } : Reactor).modify p (fun ctx => ctx.advance e.result.toNat)) p
      coros taken := by
  have hle := sends_le hs p
  rw [sends, (tags_pop hcq).count_eq, hctx, hop, List.count_cons_self] at hle
  have hrest : ({ s with cq := rest } : Reactor).sends p = 0 := by
    unfold sends
    omega
  have hack := acknowledged_pop hcq p
  rw [if_pos (by rw [hctx, hop]), acknowledged_of_none (unsent_of_sends hrest).2.2,
    add_zero] at hack
  obtain ⟨front, queue, hcons⟩ := List.exists_cons_of_ne_nil hq
  have hunpooled : p ∉ s.mgr.idlePool := (hs.active_of_find hmapped).1.serving.unpooled
  obtain ⟨sent, hmap, htaken⟩ := h.level hunpooled
  have hctx' :=
    ctx_modify (s := { s with cq := rest }) (p := p) (fun ctx => ctx.advance e.result.toNat)
  have hold : ({ s with cq := rest } : Reactor).ctx p = s.ctx p := rfl
  rw [hcons] at hmap htaken
  rw [hack, List.headD_cons] at htaken
  refine .of_sends hrest h.behind (fun _ => ?_)
  rw [hctx', hold]
  by_cases hdone : front.length ≤ (s.ctx p).written + e.result.toNat
  · refine ⟨sent ++ [front], ?_, ?_⟩
    · simp [ConnectionContext.advance, hcons, hdone, hmap]
    · simp [ConnectionContext.advance, hcons, hdone, htaken]
  · refine ⟨sent, ?_, ?_⟩
    · simp [ConnectionContext.advance, hcons, hdone, hmap]
    · simp [ConnectionContext.advance, hcons, hdone, htaken]

end turn

lemma noteTurn_streams {e : Cqe} {g : Journal} (haccept : e.op = .accept → e.result < 0)
    (hnotify : e.op ≠ .notify) :
    (noteTurn s t g e).delivered = g.delivered ∧ (noteTurn s t g e).accepted = g.accepted := by
  unfold noteTurn
  cases hop : e.op with
  | accept => simp [not_le.mpr (haccept hop)]
  | notify => exact absurd hop hnotify
  | recv => cases e.ctx <;> exact ⟨rfl, rfl⟩
  | send => exact ⟨rfl, rfl⟩

lemma streamed_turn {e : Cqe} {rest : List Cqe} {g : Journal} (hs : s.view.Sound)
    (hcq : s.cq = e :: rest)
    (h : ∀ p, Streamed s p (g.delivered p) (g.accepted p))
    (ht : t = ({ s with cq := rest } : Reactor).handleCqe D e) (p : ℕ) :
    Streamed t p ((noteTurn { s with cq := rest } t g e).delivered p)
      ((noteTurn { s with cq := rest } t g e).accepted p) := by
  have hturn := turn_handleCqe (D := D) hs hcq
  rw [← ht] at hturn
  cases hturn with
  | calm hctx haccept hnotify hc =>
    obtain ⟨hd, ha⟩ :=
      noteTurn_streams (s := { s with cq := rest }) (t := t) (g := g) haccept hnotify
    rw [hd, ha]
    exact (h p).turn_calm hcq hc hctx
  | accepted hop hresult hc =>
    have hne : (e.ctx, e.op) ≠ (some p, .send) := by simp [hop]
    have hcq' : (s.acquire e.result.toNat).cq = e :: rest := hcq
    have hg : noteTurn { s with cq := rest } t g e = g.opened s.mgr.idle.1 := by
      simp only [noteTurn, hop, hresult, ↓reduceIte]
    rw [hg]
    refine Streamed.calm ?_ hc
    by_cases hp : p = s.mgr.idle.1
    · subst hp
      simp only [Journal.opened, Function.update_self]
      exact (streamed_acquire hs).pop hcq' hne
    · simp only [Journal.opened, ne_eq, hp, not_false_eq_true, Function.update_of_ne]
      exact ((h p).acquire hs hp).pop hcq' hne
  | notified hop ht =>
    have hne : (e.ctx, e.op) ≠ (some p, .send) := by simp [hop]
    have hsound : ({ s with cq := rest, readyCoros := [] } : Reactor).view.Sound :=
      sound_pop_none hcq hs (ctx_of_notify hs hcq hop)
    have hempty : Streamed { s with
        cq := rest, readyCoros := [] } p (g.delivered p) (g.accepted p) := by
      refine ((h p).pop hcq hne).move rfl rfl ?_ ?_ ?_ le_rfl (fun _ => rfl)
      · exact fun hp => hp
      · exact fun _ he _ => .inl he
      · exact fun _ ho => .inl ho
    have hg : noteTurn { s with cq := rest } t g e =
        g.resume (({ s with cq := rest, readyCoros := [] } : Reactor).resumptions
          s.readyCoros) := by
      simp only [noteTurn, hop]
    rw [hg, ht]
    exact (streamed_resumptions s.readyCoros hsound hempty).retryNotify
  | read q hop hctx hmapped hc =>
    have hne : (e.ctx, e.op) ≠ (some p, .send) := by simp [hop]
    obtain ⟨hd, ha⟩ :=
      noteTurn_streams (s := { s with cq := rest }) (t := t) (g := g) (e := e) (by simp [hop])
      (by simp [hop])
    rw [hd, ha]
    refine Streamed.calm ?_ hc
    have hqueue :
        ∀ requests, (((({ s with cq := rest } : Reactor).dispatch q requests).ctx p).outQueue =
        (({ s with cq := rest } : Reactor).ctx p).outQueue) ∧
        ((({ s with cq := rest } : Reactor).dispatch q requests).ctx p).written =
        (({ s with cq := rest } : Reactor).ctx p).written := by
      intro requests
      rw [ctx_dispatch_apply]
      split_ifs <;> exact ⟨rfl, rfl⟩
    refine ((h p).pop hcq hne).move (hqueue _).1 (hqueue _).2 ?_ ?_ ?_ le_rfl (fun _ => rfl)
    · exact fun hp => hp
    · exact fun _ he _ => .inl he
    · exact fun _ ho => .inl ho
  | sent q hop hctx hmapped hresult hq hc =>
    obtain ⟨hd, ha⟩ :=
      noteTurn_streams (s := { s with cq := rest }) (t := t) (g := g) (e := e) (by simp [hop])
      (by simp [hop])
    rw [hd, ha]
    refine Streamed.calm ?_ hc
    by_cases hp : p = q
    · subst hp
      exact (h p).sent hcq hs hop hctx hmapped hq
    · have hne : (e.ctx, e.op) ≠ (some p, .send) := by simp [hctx, Ne.symm hp]
      have hctx' :=
        ctx_modify_apply (s := { s with cq := rest }) (p := q)
          (fun ctx => ctx.advance e.result.toNat) p
      rw [if_neg hp] at hctx'
      refine ((h p).pop hcq hne).move ?_ ?_ ?_ ?_ ?_ le_rfl (fun _ => rfl)
      · rw [hctx']
      · rw [hctx']
      · exact fun hp => hp
      · exact fun _ he _ => .inl he
      · exact fun _ ho => .inl ho

lemma streamed_effect {a : Action} {g : Journal} (hs : s.view.Sound) (hen : s.Enabled a)
    (hhandle : a ≠ .handle)
    (h : ∀ p, Streamed s p (g.delivered p) (g.accepted p)) (p : ℕ) :
    Streamed (s.effect D a) p ((note s a t g).delivered p) ((note s a t g).accepted p) := by
  cases a with
  | handle => exact absurd rfl hhandle
  | enter n => exact (h p).handOver n
  | wake => exact (h p).retryDeferred
  | acceptDone i fd =>
    obtain ⟨⟨o, ho, hop, _⟩, _⟩ := hen
    exact { (h p).complete fd [] ho (by simp [hop]) with }
  | recvDone i data =>
    obtain ⟨⟨o, ho, hop, _⟩, _⟩ := hen
    have hdone := (h p).complete data.length data ho (by simp [hop])
    simp only [effect]
    cases (s.ops[i]?).bind Op.socket with
    | none => exact h p
    | some k => exact { hdone with }
  | sendDone i n =>
    obtain ⟨⟨o, ho, hop, _⟩, _, hn⟩ := hen
    have hi : s.ops[i]? = some o := ho
    simp only [note, noteSent, hi, effect]
    cases hctx : o.sqe.ctx with
    | none =>
      have hkinds : s.tags.countP misplaced = 0 := hs.world.kinds
      rw [List.countP_eq_zero] at hkinds
      have hmem : (o.sqe.ctx, o.sqe.op) ∈ s.tags := by
        simp only [tags, List.mem_append, List.mem_map]
        exact .inl (.inr ⟨o, List.mem_of_getElem? hi, rfl⟩)
      exact absurd (hkinds _ hmem) (by simp [hctx, hop, misplaced])
    | some q =>
      simp only [Journal.accept]
      by_cases hp : p = q
      · subst hp
        rw [Function.update_self]
        exact (h p).take hs hi (by rw [hctx, hop]) (hn o ho)
      · rw [Function.update_of_ne hp]
        exact (h p).complete _ _ hi (by simp [hctx, Ne.symm hp])
  | notifyDone i =>
    obtain ⟨⟨o, ho, hop, _⟩, _⟩ := hen
    exact { (h p).complete 8 [] ho (by simp [hop]) with }
  | opFail i result =>
    obtain ⟨hin, hresult, _⟩ := hen
    obtain ⟨o, ho⟩ := Option.ne_none_iff_exists'.mp hin
    exact (h p).complete _ _ ho (fun _ => hresult)
  | workerDone i responseStr =>
    simp only [effect, workerDone]
    cases s.tasks[i]? with
    | none => exact h p
    | some task => exact { h p with }
  | interrupted => exact { h p with }
  | loop => exact { h p with }
  | eventfdWrite => exact { h p with }

lemma streamed_run {as : List Action} {x : Reactor × Journal}
    (h : Run (record D) Any (listening, {}) as x) :
    ∀ p, Streamed x.1 p (x.2.delivered p) (x.2.accepted p) := by
  refine h.invariant_with (K := fun x => x.1.view.Sound)
    (I := fun x => ∀ p, Streamed x.1 p (x.2.delivered p) (x.2.accepted p)) ?_ ?_ ?_
  · intro p
    have hsends : listening.sends p = 0 := by simp [sends, tags, listening]
    exact .of_sends hsends List.prefix_rfl (fun _ => ⟨[], rfl, rfl⟩)
  · exact fun bs x hr => sound_run (Run.unnoted Any hr)
  · intro x a y hs _ hi _ hstep
    obtain ⟨ht, hg⟩ := noted_cases hstep
    obtain ⟨hen, hy⟩ := step_cases ht
    rw [hg]
    by_cases hhandle : a = .handle
    · subst hhandle
      cases hcq : x.1.cq with
      | nil => exact absurd hcq hen.2
      | cons e rest =>
        simp only [effect, hcq] at hy
        simp only [note, hcq]
        exact streamed_turn hs hcq hi hy
    · rw [hy]
      exact streamed_effect hs hen hhandle hi

/-- The kernel takes the responses of a connection byte by byte in the order in which they
were delivered, and has taken all of them when the queue is empty. -/
theorem responses_in_order (D : Decoding) {as : List Action} {g : Journal}
    (h : Run (record D) Any (listening, {}) as (t, g)) (p : ℕ) :
    g.accepted p <+: (g.delivered p).flatMap Coro.frame ∧
    (t.Active p → ∃ sent, (g.delivered p).map Coro.frame = sent ++ (t.ctx p).outQueue ∧
      sent.flatten <+: g.accepted p) ∧
    (t.Active p → (t.ctx p).outQueue = [] → g.accepted p = (g.delivered p).flatMap Coro.frame) := by
  have hp := streamed_run h p
  refine ⟨hp.behind, fun ha => ?_, fun ha hq => ?_⟩
  · obtain ⟨sent, hmap, htaken⟩ := hp.level ha.unpooled
    refine ⟨sent, hmap, ?_⟩
    rw [show g.accepted p = _ from htaken]
    exact List.prefix_append _ _
  · obtain ⟨sent, hmap, htaken⟩ := hp.level ha.unpooled
    rw [hq] at hmap htaken
    rw [List.flatMap_def, show (g.delivered p).map Coro.frame = _ from hmap, show g.accepted p =
      _ from htaken]
    simp

def answeredRun : List Action :=
  answerRun ++ [.wake, .handle, .loop, .enter 1, .sendDone 3 9, .wake, .handle]

theorem responses_in_order_sample :
    ∃ t g, exec (record sampleDecoding) (listening, {}) answeredRun = some (t, g) ∧
    (g.delivered 0).length = 1 ∧ g.accepted 0 = (g.delivered 0).flatMap Coro.frame := by
  obtain ⟨⟨t, g⟩, ht, hd⟩ : ∃ x, exec (record sampleDecoding) (listening, {}) answeredRun = some x ∧
      decide (x.1.find 5 = some 0 ∧ (x.1.ctx 0).outQueue = [] ∧ (x.2.delivered 0).length = 1) =
        true :=
    exec_any (by decide)
  obtain ⟨hfind, hq, hone⟩ := of_decide_eq_true hd
  have hrun : Run (record sampleDecoding) Any (listening, {}) answeredRun (t, g) :=
    .of_exec ht (by decide)
  have hs : t.view.Sound := sound_run (Run.unnoted Any hrun)
  have ha : t.Active 0 := (active_iff hs).mpr (hs.active_of_find hfind).1
  exact ⟨t, g, ht, hone, (responses_in_order sampleDecoding hrun 0).2.2 ha hq⟩

end Reactor

end KimRpc.Server
