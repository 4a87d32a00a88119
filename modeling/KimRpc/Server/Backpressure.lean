import KimRpc.Server.ResponseMatching

/-! The count of the requests that a connection has in flight. It is what backpressure goes
by, and it is right as long as no coroutine of an open connection is resumed without a frame. -/

namespace KimRpc.Server

open Library.Runs Wire

namespace Reactor

variable {D : Decoding} (s t u : Reactor) (a : Action) (g g' : Journal) (p : ℕ)

def unresumed (id : UInt64) : ℕ :=
  s.tasks.countP (fun task => task.connId = id) + s.readyCoros.countP (fun c => c.connId = id)

/-- No coroutine is resumed without a frame while the connection with its id is open, and
no id in use is given out. -/
def Accountable : Prop :=
  s.FreshId a ∧ (a = .handle → ∀ e rest, s.cq = e :: rest → e.op = .notify → ∀ u c,
    (u, c) ∈ ({ s with cq := rest, readyCoros := [] } : Reactor).resumptions s.readyCoros →
    c.frame = [] →
      ∀ p, u.Open p → (u.ctx p).connId ≠ c.connId)

def Counted : Prop :=
  ∀ p, s.Open p → (s.ctx p).pendingReqs = s.unresumed (s.ctx p).connId + (s.ctx p).outQueue.length

variable {s t u a g g' p}

lemma Counted.steady (h : s.Counted) (hs : Steady s t) : t.Counted := by
  intro p hp
  have hold := h p (hs.parallel.opened hp)
  rw [hs.pendingReqs, hs.connId, hs.outQueue, unresumed, hs.tasks, hs.readyCoros]
  exact hold

lemma Counted.acquire {fd : ℕ} (h : s.Counted) (hfresh : s.Unused s.mgr.nextId) :
    (s.acquire fd).Counted := by
  intro p hp
  by_cases hp' : p = s.mgr.idle.1
  · obtain ⟨_, htasks, hcoros⟩ := hfresh
    have hnone : (s.acquire fd).unresumed s.mgr.nextId = 0 := by
      have htasks' : s.tasks.countP (fun task => task.connId = s.mgr.nextId) = 0 := by
        rw [List.countP_eq_zero]
        simpa using htasks
      have hcoros' : s.readyCoros.countP (fun c => c.connId = s.mgr.nextId) = 0 := by
        rw [List.countP_eq_zero]
        simpa using hcoros
      exact congrArg₂ _ htasks' hcoros'
    rw [hp', ctx_acquire]
    simp [hnone, ConnectionContext.reset]
  · have hold := h p (open_acquire hp hp')
    rw [ctx_acquire_ne hp']
    exact hold

lemma countP_dispatch (requests : List Request) (id : UInt64) :
    (s.dispatch p requests).tasks.countP (fun task => task.connId = id) =
      s.tasks.countP (fun task => task.connId = id) + if (s.ctx p).connId = id then requests.length
        else 0 := by
  simp only [dispatch, List.countP_append, Nat.add_left_cancel_iff]
  split_ifs with hid
  · rw [List.countP_eq_length.mpr, List.length_mapIdx]
    intro task htask
    obtain ⟨i, hi, rfl⟩ := List.mem_mapIdx.mp htask
    simpa using hid
  · rw [List.countP_eq_zero]
    intro task htask
    obtain ⟨i, hi, rfl⟩ := List.mem_mapIdx.mp htask
    simpa using hid

lemma Counted.dispatch {requests : List Request} (h : s.Counted) (hm : s.Matched) (hp : s.Open p) :
    (s.dispatch p requests).Counted := by
  intro q hq
  have hopen : s.Open q := by
    unfold Open at hq
    rw [(names_dispatch requests q).1] at hq
    exact hq
  have hold := h q hopen
  have hready : (s.dispatch p requests).readyCoros = s.readyCoros := rfl
  rw [ctx_dispatch_apply, unresumed, countP_dispatch, hready]
  by_cases hqp : q = p
  · subst hqp
    simp only [↓reduceIte, hold, unresumed]
    omega
  · have hid : (s.ctx p).connId ≠ (s.ctx q).connId :=
      fun heq => hqp (hm.apart p q hp hopen heq).symm
    simp only [hqp, hid, ↓reduceIte, hold, unresumed]
    omega

lemma counted_foldl (cs : List Coro)
    (hm : ∀ c ∈ cs, ∀ p, u.Open p → (u.ctx p).connId = c.connId → (u.ctx p).fd = c.fd)
    (hframe : ∀ v c, (v, c) ∈ u.resumptions cs → c.frame = [] → ∀ p, v.Open p →
      (v.ctx p).connId ≠ c.connId)
    (h : ∀ p, u.Open p →
      (u.ctx p).pendingReqs = (u.tasks.countP (fun task => task.connId = (u.ctx p).connId) +
      cs.countP (fun c => c.connId = (u.ctx p).connId) : ℕ) + (u.ctx p).outQueue.length) :
    ∀ p, (cs.foldl resume u).Open p → ((cs.foldl resume u).ctx p).pendingReqs =
      (cs.foldl resume u).tasks.countP
      (fun task => task.connId = ((cs.foldl resume u).ctx p).connId) +
        ((cs.foldl resume u).ctx p).outQueue.length := by
  induction cs generalizing u with
  | nil =>
    intro p hp
    have hold := h p hp
    rw [List.countP_nil, Nat.add_zero] at hold
    exact hold
  | cons c cs ih =>
    have hpar := parallel_resume (s := u) c
    refine ih ?_ ?_ ?_
    · intro c' hc' p hp hid
      rw [hpar.connId] at hid
      rw [hpar.fd]
      exact hm c' (List.mem_cons_of_mem c hc') p (hpar.opened hp) hid
    · exact fun v c' hmem => hframe v c' (List.mem_cons_of_mem _ hmem)
    · intro p hp
      have hopen := hpar.opened hp
      have hold := h p hopen
      rw [hpar.pendingReqs, hpar.connId, hpar.tasks, outQueue_resume, hold, List.countP_cons]
      by_cases hid : (u.ctx p).connId = c.connId
      · have hne : c.frame ≠ [] := fun hnil => hframe u c List.mem_cons_self hnil p hopen hid
        have hfind : u.find c.fd = some p := by
          rw [← hm c List.mem_cons_self p hopen hid]
          exact hopen
        have htarget : u.target c = some p := by simp [target, hne, hfind, hid]
        simp only [hid, htarget, ↓reduceIte, decide_true, List.length_append, List.length_singleton]
        omega
      · have htarget : u.target c ≠ some p := fun hsome => hid (target_find hsome).2.2
        simp only [Ne.symm hid, htarget, ↓reduceIte, decide_false, Bool.false_eq_true,
          List.append_nil]
        omega

lemma Counted.workerDone {i : ℕ} {responseStr : Option Bytes} (h : s.Counted) :
    (s.workerDone i responseStr).Counted := by
  cases hi : s.tasks[i]? with
  | none =>
    simp only [Reactor.workerDone, hi]
    exact h
  | some task =>
    obtain ⟨hlt, rfl⟩ := List.getElem?_eq_some_iff.mp hi
    have hsame : ∀ id, (s.workerDone i responseStr).unresumed id = s.unresumed id := by
      intro id
      have hcount := (List.getElem_cons_eraseIdx_perm hlt).countP_eq (fun task => task.connId = id)
      rw [List.countP_cons] at hcount
      rw [workerDone_eq responseStr hi]
      simp only [unresumed, List.countP_append, List.countP_singleton]
      omega
    intro p hp
    rw [hsame]
    rw [workerDone_eq responseStr hi] at hp ⊢
    exact h p hp

lemma Counted.advance {n : ℕ} (h : s.Counted) (hq : (s.ctx p).outQueue ≠ []) :
    (s.modify p (fun ctx => ctx.advance n)).Counted := by
  intro q hq'
  have hopen : s.Open q := by
    unfold Open at hq'
    rw [(names_advance n q).1] at hq'
    exact hq'
  have hold := h q hopen
  have hsame : ∀ id, (s.modify p (fun ctx => ctx.advance n)).unresumed id = s.unresumed id :=
    fun _ => rfl
  rw [hsame, ctx_modify_apply]
  by_cases hqp : q = p
  · subst hqp
    obtain ⟨front, rest, hcons⟩ := List.exists_cons_of_ne_nil hq
    rw [hcons, List.length_cons] at hold
    rw [if_pos rfl, ConnectionContext.advance]
    split_ifs
    · simp only [hold, hcons, List.tail_cons]
      push_cast
      ring
    · rw [hcons]
      exact hold
  · rw [if_neg hqp]
    exact hold

lemma Counted.change (h : s.Counted) (hm : s.Matched) (hok : s.Accountable a)
    (hc : Change D s t a g g') : t.Counted := by
  cases hc with
  | steady hs => exact h.steady hs
  | accepted e ha he hop hresult hs => exact (h.acquire (hok.1 ha e he hop hresult)).steady hs
  | read e p c _ _ _ hs hmapped => exact (h.dispatch hm hmapped).steady hs
  | notified e rest ha hcq hop hs =>
    refine Counted.steady (fun p hp => ?_) hs
    have hfold := counted_foldl (u := { s with cq := rest, readyCoros := [] }) s.readyCoros hm.coros
      (hok.2 ha e rest hcq hop) h p hp
    have hready :=
      (parallel_foldl (s := { s with cq := rest, readyCoros := [] }) s.readyCoros).readyCoros
    have hnone : ({ s with cq := rest } : Reactor).handleNotify.readyCoros = [] := hready
    rw [unresumed, hnone, List.countP_nil, add_zero]
    exact hfold
  | answered i responseStr _ ht =>
    rw [ht]
    exact h.workerDone
  | sent p n hs _ _ hq => exact (h.advance hq).steady hs

lemma run_invariant {ok : Reactor → Action → Prop} {I : Reactor → Prop} {as : List Action}
    (h : Run (Reactor.step D) ok listening as t) (hinit : I listening)
    (hstep : ∀ s t a g g', s.view.Sound → I s → ok s a → Change D s t a g g' → I t) : I t := by
  refine h.invariant_with (K := fun s => s.view.Sound) hinit (fun _ _ hr => sound_run hr.any) ?_
  intro s a t hs _ hi hok hst
  exact hstep s t a {} _ hs hi hok (change_step hs hst rfl)

lemma counted_run {as : List Action} (h : Run (Reactor.step D) Accountable listening as t) :
    t.Matched ∧ t.Counted := by
  apply run_invariant (I := fun s => s.Matched ∧ s.Counted) h
  · exact ⟨⟨nofun, nofun, nofun⟩, nofun⟩
  · exact fun s t a g g' _ hi hok hc => ⟨hi.1.change hok.1 hc, hi.2.change hi.1 hok hc⟩

section rank

variable (s p)

def rank : ℕ ×ₗ ℕ ×ₗ ℕ :=
  toLex (s.tasks.countP (fun task => task.connId = (s.ctx p).connId),
    toLex (s.readyCoros.countP (fun c => c.connId = (s.ctx p).connId),
      (s.ctx p).outQueue.flatten.length - (s.ctx p).written))

variable {s p}

lemma rank_steady (h : Steady s t) : t.rank p = s.rank p := by
  rw [rank, h.tasks, h.readyCoros, h.connId, h.outQueue, h.written, rank]

lemma rank_of_tasks (hid : (t.ctx p).connId = (s.ctx p).connId)
    (h : t.tasks.countP (fun task => task.connId = (s.ctx p).connId) <
      s.tasks.countP (fun task => task.connId = (s.ctx p).connId)) : t.rank p < s.rank p := by
  rw [rank, hid, rank, Prod.Lex.toLex_lt_toLex]
  exact .inl h

lemma rank_of_coros (hid : (t.ctx p).connId = (s.ctx p).connId) (htasks : t.tasks = s.tasks)
    (h : t.readyCoros.countP (fun c => c.connId = (s.ctx p).connId) <
      s.readyCoros.countP (fun c => c.connId = (s.ctx p).connId)) : t.rank p < s.rank p := by
  rw [rank, hid, htasks, rank, Prod.Lex.toLex_lt_toLex]
  refine .inr ⟨rfl, ?_⟩
  rw [Prod.Lex.toLex_lt_toLex]
  exact .inl h

lemma rank_advance {n : ℕ} (ha : s.view.Active p) (hn : 0 < n) (hq : (s.ctx p).outQueue ≠ []) :
    (s.modify p (fun ctx => ctx.advance n)).rank p < s.rank p := by
  obtain ⟨front, rest, hcons⟩ := List.exists_cons_of_ne_nil hq
  have hwritten : (s.ctx p).written < front.length := ha.sends.written front rest hcons
  have hid : ((s.modify p (fun ctx => ctx.advance n)).ctx p).connId = (s.ctx p).connId :=
    (names_advance n p).2
  have hless : ((s.modify p (fun ctx => ctx.advance n)).ctx p).outQueue.flatten.length -
      ((s.modify p (fun ctx => ctx.advance n)).ctx p).written <
        (s.ctx p).outQueue.flatten.length - (s.ctx p).written := by
    rw [ctx_modify, ConnectionContext.advance, hcons, List.headD_cons, List.tail_cons,
      List.flatten_cons,
      List.length_append]
    split_ifs
    · show rest.flatten.length - 0 < _
      omega
    · show (front :: rest).flatten.length - ((s.ctx p).written + n) < _
      rw [List.flatten_cons, List.length_append]
      omega
  rw [rank, hid, rank, Prod.Lex.toLex_lt_toLex]
  refine .inr ⟨rfl, ?_⟩
  rw [Prod.Lex.toLex_lt_toLex]
  exact .inr ⟨rfl, hless⟩

lemma outQueue_foldl {cs : List Coro} (h : ∀ c ∈ cs, c.connId ≠ (s.ctx p).connId) :
    ((cs.foldl resume s).ctx p).outQueue = (s.ctx p).outQueue := by
  induction cs generalizing s with
  | nil => rfl
  | cons c cs ih =>
    have hpar := parallel_resume (s := s) c
    have htarget : s.target c ≠ some p :=
      fun hsome => h c List.mem_cons_self (target_find hsome).2.2.symm
    rw [List.foldl_cons, ih, outQueue_resume, if_neg htarget, List.append_nil]
    intro c' hc'
    rw [hpar.connId]
    exact h c' (List.mem_cons_of_mem c hc')

lemma idle_ne (hs : s.view.Sound) (hp : s.Open p) : p ≠ s.mgr.idle.1 := by
  have hv : s.view.Vacant s.mgr.idle.1 s.mgr.idle.2 := hs.vacant
  rintro rfl
  exact hv.unmapped _ hp

lemma paused_ne {e : Cqe} {q : ℕ} (ha : s.view.Active p) (hpaused : (s.ctx p).readPaused = true)
    (he : e ∈ s.cq.head?) (hop : e.op = .recv) (hctx : e.ctx = some q) : p ≠ q := by
  rintro rfl
  have hrecvs : s.recvs p = if (s.ctx p).readPaused then 0 else 1 := ha.recvs.armed
  rw [if_pos hpaused, recvs, List.count_eq_zero] at hrecvs
  apply hrecvs
  simp only [tags, List.mem_append, List.mem_map]
  exact .inr ⟨e, List.mem_of_mem_head? he, by rw [hctx, hop]⟩

lemma connId_change (hs : s.view.Sound) (hp : s.Open p) (hc : Change D s t a g g') :
    (t.ctx p).connId = (s.ctx p).connId := by
  cases hc with
  | steady hst => exact hst.connId p
  | accepted e _ _ _ _ hst => rw [hst.connId, ctx_acquire_ne (idle_ne hs hp)]
  | read e q c _ _ _ hst =>
    exact (hst.connId p).trans (names_dispatch _ p).2
  | notified e rest _ _ _ hst =>
    have hfold := parallel_foldl (s := { s with cq := rest, readyCoros := [] }) s.readyCoros
    exact (hst.connId p).trans (hfold.connId p)
  | answered i responseStr _ ht =>
    rw [ht, workerDone]
    cases s.tasks[i]? <;> rfl
  | sent q n hst =>
    exact (hst.connId p).trans (names_advance n p).2

lemma rank_change (hs : s.view.Sound) (hm : s.Matched) (hp : s.Open p)
    (hpaused : (s.ctx p).readPaused = true)
    (hc : Change D s t a g g') : t.rank p ≤ s.rank p ∧
      (∀ task ∈ s.tasks, task.connId = (s.ctx p).connId → task ∉ t.tasks → t.rank p < s.rank p) ∧
      (∀ c ∈ s.readyCoros, c.connId = (s.ctx p).connId → c ∉ t.readyCoros →
        t.rank p < s.rank p) := by
  have ha := (hs.active_of_find hp).1
  have hid := connId_change hs hp hc
  cases hc with
  | steady hst =>
    refine ⟨(rank_steady hst).le, fun task htask _ hgone => ?_, fun c hc _ hgone => ?_⟩
    · exact absurd (hst.tasks ▸ htask) hgone
    · exact absurd (hst.readyCoros ▸ hc) hgone
  | accepted e _ _ _ _ hst =>
    have hsame : (s.acquire e.result.toNat).rank p = s.rank p := by
      rw [rank, ctx_acquire_ne (idle_ne hs hp)]
      rfl
    refine ⟨((rank_steady hst).trans hsame).le, fun task htask _ hgone => ?_,
      fun c hc _ hgone => ?_⟩
    · rw [hst.tasks] at hgone
      exact absurd htask hgone
    · rw [hst.readyCoros] at hgone
      exact absurd hc hgone
  | read e q c he hop hctx hst hmapped =>
    have hne := paused_ne ha hpaused he hop hctx
    have hid' : (s.ctx q).connId ≠ (s.ctx p).connId :=
      fun heq => hne (hm.apart q p hmapped hp heq).symm
    have hsame : (s.dispatch q (D.uringDecoder.drain c.input).1).rank p = s.rank p := by
      rw [rank, ctx_dispatch_apply, if_neg hne, countP_dispatch, if_neg hid']
      rfl
    refine ⟨((rank_steady hst).trans hsame).le, fun task htask _ hgone => ?_,
      fun c hc _ hgone => ?_⟩
    · rw [hst.tasks] at hgone
      exact absurd (List.mem_append_left _ htask) hgone
    · rw [hst.readyCoros] at hgone
      exact absurd hc hgone
  | notified e rest _ _ _ hst =>
    have hfold := parallel_foldl (s := { s with cq := rest, readyCoros := [] }) s.readyCoros
    have htasks : t.tasks = s.tasks := hst.tasks.trans hfold.tasks
    have hready : t.readyCoros = [] := hst.readyCoros.trans hfold.readyCoros
    have hless : ∀ c ∈ s.readyCoros, c.connId = (s.ctx p).connId → t.rank p < s.rank p := by
      intro c hc hc'
      apply rank_of_coros hid htasks
      rw [hready, List.countP_nil, List.countP_pos_iff]
      exact ⟨c, hc, by simpa using hc'⟩
    refine ⟨?_, fun task htask _ hgone => absurd (htasks ▸ htask) hgone,
      fun c hc hc' _ => hless c hc hc'⟩
    by_cases hany : ∃ c ∈ s.readyCoros, c.connId = (s.ctx p).connId
    · obtain ⟨c, hc, hc'⟩ := hany
      exact (hless c hc hc').le
    · have hnone : ∀ c ∈ s.readyCoros, c.connId ≠ (s.ctx p).connId :=
        fun c hc heq => hany ⟨c, hc, heq⟩
      have hqueue : (t.ctx p).outQueue = (s.ctx p).outQueue :=
        (hst.outQueue p).trans (outQueue_foldl (s := { s with cq := rest, readyCoros := [] }) hnone)
      have hwritten : (t.ctx p).written = (s.ctx p).written :=
        (hst.written p).trans (hfold.written p)
      have hzero : s.readyCoros.countP (fun c => c.connId = (s.ctx p).connId) = 0 := by
        rw [List.countP_eq_zero]
        simpa using hnone
      rw [rank, hid, htasks, hready, hqueue, hwritten, List.countP_nil, rank, hzero]
  | answered i responseStr _ ht =>
    cases hi : s.tasks[i]? with
    | none =>
      have hsame : t = s := by
        rw [ht, workerDone, hi]
      rw [hsame]
      exact ⟨le_rfl, fun task htask _ hgone => absurd htask hgone,
        fun c hc _ hgone => absurd hc hgone⟩
    | some task =>
      obtain ⟨hlt, rfl⟩ := List.getElem?_eq_some_iff.mp hi
      rw [workerDone_eq responseStr hi] at ht
      have hcount :=
        (List.getElem_cons_eraseIdx_perm hlt).countP_eq (fun task => task.connId = (s.ctx p).connId)
      rw [List.countP_cons] at hcount
      have htasks : t.tasks = s.tasks.eraseIdx i := by rw [ht]
      have hready : t.readyCoros = s.readyCoros ++ [⟨s.tasks[i].fd, s.tasks[i].connId,
          onPoolDone s.tasks[i].request.requestId responseStr, s.tasks[i].serial⟩] := by rw [ht]
      have hqueue : (t.ctx p).outQueue = (s.ctx p).outQueue ∧
          (t.ctx p).written = (s.ctx p).written := by
        rw [ht]
        exact ⟨rfl, rfl⟩
      have hless : s.tasks[i].connId = (s.ctx p).connId → t.rank p < s.rank p := by
        intro hown
        apply rank_of_tasks hid
        rw [htasks]
        simp only [hown, decide_true, ↓reduceIte] at hcount
        omega
      refine ⟨?_, fun task htask hown hgone => ?_, fun c hc _ hgone => ?_⟩
      · by_cases hown : s.tasks[i].connId = (s.ctx p).connId
        · exact (hless hown).le
        · simp only [hown, decide_false, Bool.false_eq_true, ↓reduceIte, add_zero] at hcount
          rw [rank, hid, htasks, hready, hqueue.1, hqueue.2, List.countP_append,
            List.countP_singleton, hcount]
          simp [hown, rank]
      · have hmem : task ∈ s.tasks[i] :: s.tasks.eraseIdx i :=
          (List.getElem_cons_eraseIdx_perm hlt).mem_iff.mpr htask
        rcases List.mem_cons.mp hmem with heq | hrest
        · exact hless (heq ▸ hown)
        · exact absurd (htasks ▸ hrest) hgone
      · rw [hready] at hgone
        exact absurd (List.mem_append_left _ hc) hgone
  | sent q n hst hn hmapped hq =>
    have hle : (s.modify q (fun ctx => ctx.advance n)).rank p ≤ s.rank p := by
      by_cases hqp : p = q
      · subst hqp
        exact (rank_advance ha hn hq).le
      · rw [rank, ctx_modify_apply, if_neg hqp]
        exact le_rfl
    refine ⟨(rank_steady hst).trans_le hle, fun task htask _ hgone => ?_, fun c hc _ hgone => ?_⟩
    · rw [hst.tasks] at hgone
      exact absurd htask hgone
    · rw [hst.readyCoros] at hgone
      exact absurd hc hgone

lemma rank_sent {e : Cqe} {rest : List Cqe} (hs : s.view.Sound) (hp : s.Open p)
    (hcq : s.cq = e :: rest)
    (hop : e.op = .send) (hctx : e.ctx = some p)
    (ht : t = ({ s with cq := rest } : Reactor).handleCqe D e)
    (hp' : t.Open p) : t.rank p < s.rank p := by
  have hturn := turn_handleCqe (D := D) hs hcq
  rw [← ht] at hturn
  cases hturn with
  | calm hgone => exact absurd hp' ((hgone p hctx hop).2 _)
  | accepted hop' => simp [hop] at hop'
  | notified hop' => simp [hop] at hop'
  | read q hop' => simp [hop] at hop'
  | sent q _ hctx' _ hresult hq hc =>
    cases Option.some.inj (hctx.symm.trans hctx')
    rw [rank_steady hc.toSteady]
    exact rank_advance (s := s) (hs.active_of_find hp).1 (by omega) hq

end rank

/-- The service answers each request, each coroutine is resumed, and the completion of each
send of the connection is handled, sooner or later. -/
structure Attended (σ : ℕ → Reactor) (α : ℕ → Action) (p : ℕ) : Prop where
  answered : ∀ k, ∀ task ∈ (σ k).tasks, ∃ j ≥ k, task ∉ (σ j).tasks
  resumed : ∀ k, ∀ c ∈ (σ k).readyCoros, ∃ j ≥ k, c ∉ (σ j).readyCoros
  sent : ∀ k, (σ k).sends p ≠ 0 → ∃ j ≥ k, α j = .handle ∧ ∃ e ∈ (σ j).cq.head?, e.op = .send ∧
      e.ctx = some p

lemma paused_work (hs : s.view.Sound) (hc : s.Counted) (ha : s.Active p)
    (hpaused : (s.ctx p).readPaused = true) :
    (∃ task ∈ s.tasks, task.connId = (s.ctx p).connId) ∨
    (∃ c ∈ s.readyCoros, c.connId = (s.ctx p).connId) ∨
      (s.ctx p).outQueue ≠ [] ∧ s.sends p = 1 := by
  have ha' := (active_iff hs).mp ha
  have hcount := hc p ((open_iff hs).mpr ha)
  have hlimit := ha'.recvs.paused hpaused
  have hctx : s.view.ctx p = s.ctx p := rfl
  rw [hctx, hcount, kMaxInflightPerConn, unresumed] at hlimit
  by_cases htasks : 0 < s.tasks.countP (fun task => task.connId = (s.ctx p).connId)
  · obtain ⟨task, htask, hid⟩ := List.countP_pos_iff.mp htasks
    exact .inl ⟨task, htask, by simpa using hid⟩
  by_cases hcoros : 0 < s.readyCoros.countP (fun c => c.connId = (s.ctx p).connId)
  · obtain ⟨c, hc, hid⟩ := List.countP_pos_iff.mp hcoros
    exact .inr (.inl ⟨c, hc, by simpa using hid⟩)
  · have hq : (s.ctx p).outQueue ≠ [] := by
      intro hnil
      rw [hnil, List.length_nil] at hlimit
      omega
    have hsends : s.sends p = if (s.ctx p).sending then 1 else 0 := ha'.sends.armed
    have hsending : (s.ctx p).sending = true := ha'.queued.mpr hq
    rw [if_pos hsending] at hsends
    exact .inr (.inr ⟨hq, hsends⟩)

/-- The requests in flight are counted; a connection that does not read has one whose
completion lets it go on, and reads again or is closed in the end. -/
theorem backpressure_accounted (D : Decoding) {as : List Action}
    (h : Run (Reactor.step D) Accountable listening as t) (p : ℕ) (hp : t.Active p) :
    (t.ctx p).pendingReqs = t.unresumed (t.ctx p).connId + (t.ctx p).outQueue.length ∧
    ((t.ctx p).readPaused = true → (∃ task ∈ t.tasks, task.connId = (t.ctx p).connId) ∨
      (∃ c ∈ t.readyCoros, c.connId = (t.ctx p).connId) ∨ (t.ctx p).outQueue ≠ [] ∧ t.sends p = 1) ∧
    (∀ σ α, σ 0 = t → Path (Reactor.step D) Accountable σ α → Attended σ α p →
      ∃ k, ¬ ((σ k).Active p ∧ ((σ k).ctx p).readPaused = true)) := by
  have hs := sound_run h.any
  obtain ⟨hm, hcounted⟩ := counted_run h
  refine ⟨hcounted p ((open_iff hs).mpr hp), paused_work hs hcounted hp, ?_⟩
  rintro σ α rfl hpath hattended
  have hrun := fun k => h.append (hpath.run k)
  have hsound := fun k => sound_run (hrun k).any
  have hinv := fun k => counted_run (hrun k)
  have hchange : ∀ k, Change D (σ k) (σ (k + 1)) (α k) {} (note (σ k) (α k) (σ (k + 1)) {}) :=
    fun k => change_step (hsound k) (hpath.next k) rfl
  have hopen : ∀ k, (σ k).Active p → (σ k).Open p := fun k => (open_iff (hsound k)).mpr
  apply rank_ends (P := fun s : Reactor => s.Active p ∧ (s.ctx p).readPaused = true)
    (fun s : Reactor => s.rank p)
  · rintro k ⟨ha, hpaused⟩ _
    exact (rank_change (hsound k) (hinv k).1 (hopen k ha) hpaused (hchange k)).1
  · intro hP k
    have hconst : ∀ j ≥ k, ((σ j).ctx p).connId = ((σ k).ctx p).connId := by
      intro j hj
      induction j, hj using Nat.le_induction with
      | base => rfl
      | succ j hj ih => exact (connId_change (hsound j) (hopen j (hP j).1) (hchange j)).trans ih
    rcases paused_work (hsound k) (hinv k).2 (hP k).1 (hP k).2 with ⟨task, htask, hid⟩ |
      ⟨c, hc, hid⟩ | ⟨_, hsends⟩
    · obtain ⟨j, hj, hgone⟩ := hattended.answered k task htask
      obtain ⟨i, hi, hmem, hlost⟩ := exists_last (Q := fun i => task ∈ (σ i).tasks) hj htask hgone
      refine ⟨i, hi, ?_⟩
      apply (rank_change (hsound i) (hinv i).1 (hopen i (hP i).1) (hP i).2 (hchange i)).2.1 task
        hmem _ hlost
      rw [hid, hconst i hi]
    · obtain ⟨j, hj, hgone⟩ := hattended.resumed k c hc
      obtain ⟨i, hi, hmem, hlost⟩ := exists_last (Q := fun i => c ∈ (σ i).readyCoros) hj hc hgone
      refine ⟨i, hi, ?_⟩
      apply (rank_change (hsound i) (hinv i).1 (hopen i (hP i).1) (hP i).2 (hchange i)).2.2 c hmem _
        hlost
      rw [hid, hconst i hi]
    · obtain ⟨j, hj, hhandle, e, he, hop, hctx⟩ := hattended.sent k (by omega)
      obtain ⟨rest, hcq⟩ : ∃ rest, (σ j).cq = e :: rest := by
        cases hcq : (σ j).cq with
        | nil => simp [hcq] at he
        | cons e' rest =>
          simp only [hcq, List.head?_cons, Option.mem_def, Option.some.injEq] at he
          exact ⟨rest, by rw [he]⟩
      obtain ⟨_, ht⟩ := step_cases (hpath.next j)
      rw [hhandle] at ht
      simp only [effect, hcq] at ht
      exact ⟨j, hj, rank_sent (hsound j) (hopen j (hP j).1) hcq hop hctx ht
        (hopen (j + 1) (hP (j + 1)).1)⟩

lemma accountable_of_frames (hfresh : s.FreshId a)
    (h : a = .handle → ∀ e rest, s.cq = e :: rest → e.op = .notify →
      ∀ c ∈ s.readyCoros, c.frame ≠ []) :
    s.Accountable a := by
  refine ⟨hfresh, ?_⟩
  intro ha e rest hcq hop u c hmem hnil
  have hcoros := resumptions_coros { s with cq := rest, readyCoros := [] } s.readyCoros
  have hc : c ∈ s.readyCoros := by
    rw [← hcoros]
    exact List.mem_map.mpr ⟨(u, c), hmem, rfl⟩
  exact absurd hnil (h ha e rest hcq hop c hc)

lemma accountable_run {as : List Action} {x : Reactor × Journal}
    (h : Run (record D) (fun _ a => Serialises a) (listening, {}) as x)
    (hlt : x.1.acquired.length < 2 ^ 64) :
    Run (Reactor.step D) Accountable listening as x.1 := by
  have hfresh := run_freshId h hlt
  clear h hlt
  induction hfresh with
  | nil => exact .nil
  | snoc hr hok hstep ih =>
    have hframes := fun c hc => ((answering_run hr).coros c hc).frame
    exact .snoc ih (accountable_of_frames hok.2 (fun _ _ _ _ _ => hframes)) (noted_cases hstep).1

lemma idle_cycle (D : Decoding) (h : s.pc = .entering) :
    Reactor.step D s (.enter 0) = some (s.handOver 0) ∧
    Reactor.step D (s.handOver 0) .interrupted = some s := by
  refine ⟨if_pos h, (if_pos rfl).trans (congrArg some ?_)⟩
  simp [effect, handOver, ← h]

def Framed (s : Reactor) (a : Action) : Prop :=
  a = .handle → ∀ e ∈ s.cq.head?, e.op ≠ .accept ∧
  (e.op = .notify → ∀ c ∈ s.readyCoros, c.frame ≠ [])

instance (s : Reactor) (a : Action) : Decidable (Framed s a) :=
  inferInstanceAs (Decidable (_ → ∀ e ∈ _, _ ∧ (_ → _)))

lemma Framed.accountable (h : Framed s a) : s.Accountable a := by
  refine accountable_of_frames (fun ha e he hop => absurd hop (h ha e he).1)
    (fun ha e rest hcq hop => ?_)
  exact (h ha e (by rw [hcq]; rfl)).2 hop

lemma attended_path {as : List Action} {u v : Reactor}
    (h : exec (Reactor.step D) t (as ++ [.handle, .loop]) = some u)
    (hok : Allowed (Reactor.step D) Framed t (as ++ [.handle, .loop]))
    (hv : exec (Reactor.step D) t as = some v)
    (hsent : ∃ e ∈ v.cq.head?, e.op = .send ∧ e.ctx = some p) (htasks : u.tasks = [])
    (hcoros : u.readyCoros = [])
    (hsends : u.sends p = 0) : ∃ σ α, σ 0 = t ∧ Path (Reactor.step D) Accountable σ α ∧
    Attended σ α p := by
  have hlength : (as ++ [Action.handle, .loop]).length = as.length + 2 := by simp
  -- the last two steps handle the completion and enter the loop again
  obtain ⟨w, hw, hloop⟩ : ∃ w, exec (Reactor.step D) t (as ++ [.handle]) = some w ∧
      exec (Reactor.step D) w [.loop] = some u := by
    rw [show as ++ [Action.handle, .loop] = (as ++ [.handle]) ++ [.loop] by simp, exec_append] at h
    exact Option.bind_eq_some_iff.mp h
  obtain ⟨x, hx, hxu⟩ := Option.bind_eq_some_iff.mp hloop
  cases Option.some.inj hxu
  obtain ⟨-, rfl⟩ := step_cases hx
  obtain ⟨hleave, hback⟩ := idle_cycle D (s := w.effect D .loop) rfl
  obtain ⟨σ, α, hzero, hpath, hacts, hstates, hend⟩ :=
    exists_path h hok (fun ha => by cases ha) (fun ha => by cases ha) hleave hback
  have hv' : σ as.length = v := by
    have htaken := hstates as.length (by omega)
    rw [List.take_left, hv] at htaken
    exact (Option.some.inj htaken).symm
  have hw' : σ (as.length + 1) = w := by
    have htaken := hstates (as.length + 1) (by omega)
    rw [show (as ++ [Action.handle, .loop]).take (as.length + 1) = as ++
      [.handle] by simp [List.take_append], hw] at htaken
    exact (Option.some.inj htaken).symm
  have hquiet : ∀ k ≥ as.length + 2, (σ k).tasks = [] ∧ (σ k).readyCoros = [] ∧
      (σ k).sends p = 0 := by
    intro k hk
    rcases hend k (by omega) with heq | heq <;> rw [heq]
    · exact ⟨htasks, hcoros, hsends⟩
    · refine ⟨htasks, hcoros, ?_⟩
      have hsame : ((w.effect D .loop).handOver 0).tags = (w.effect D .loop).tags := by
        simp [handOver, Reactor.tags]
      rw [Reactor.sends, hsame]
      exact hsends
  refine ⟨σ, α, hzero, ⟨fun k => (hpath.allowed k).accountable, hpath.next⟩, fun k task _ => ?_,
    fun k c _ => ?_,
    fun k hk => ?_⟩
  · exact ⟨k + (as.length + 2), by omega, by simp [(hquiet (k + (as.length + 2)) (by omega)).1]⟩
  · exact ⟨k + (as.length + 2), by omega, by simp [(hquiet (k + (as.length + 2)) (by omega)).2.1]⟩
  · have hle : k ≤ as.length := by
      by_contra hlt
      rcases Nat.lt_or_ge k (as.length + 2) with hk' | hk'
      · obtain rfl : k = as.length + 1 := by omega
        rw [hw'] at hk
        exact hk hsends
      · exact hk (hquiet k hk').2.2
    have hact := hacts as.length (by omega)
    rw [List.getElem?_append_right le_rfl, Nat.sub_self] at hact
    exact ⟨as.length, hle, (Option.some.inj hact).symm, hv'.symm ▸ hsent⟩

def pausedRun : List Action := acceptRun ++
  [.enter 2, .recvDone 1 (List.replicate 256 [8, 0, 0, 0, 10, 1, 85, 18, 1, 76, 32, 1]).flatten,
    .wake, .handle, .loop, .enter 0]

/-- All are answered, one response goes out and the connection reads again, and the next
response fails. -/
def attendedRun : List Action := List.replicate 256 (.workerDone 0 (some [8, 1])) ++
  [.eventfdWrite, .notifyDone 0, .wake, .handle, .loop, .enter 2, .sendDone 1 14, .wake, .handle,
    .loop, .enter 2,
    .opFail 3 (-1), .wake]

theorem backpressure_accounted_sample :
    ∃ t σ α, Run (Reactor.step sampleDecoding) Accountable listening pausedRun t ∧
    (t.ctx 0).readPaused = true ∧
    (t.ctx 0).pendingReqs = t.unresumed (t.ctx 0).connId + (t.ctx 0).outQueue.length ∧
    σ 0 = t ∧ Attended σ α 0 ∧ ∃ k, ¬ ((σ k).Active 0 ∧ ((σ k).ctx 0).readPaused = true) := by
  obtain ⟨⟨t, g⟩, ht, hd⟩ : ∃ x, exec (record sampleDecoding) (listening, {}) pausedRun = some x ∧
      decide (x.1.acquired = [1] ∧ x.1.find 5 = some 0 ∧ (x.1.ctx 0).readPaused = true ∧
        Allowed (Reactor.step sampleDecoding) Framed x.1 (attendedRun ++ [.handle, .loop]) ∧
        (exec (Reactor.step sampleDecoding) x.1 attendedRun).any (fun v =>
          v.cq.head?.any (fun e => e.op = .send ∧ e.ctx = some 0) ∧
            (exec (Reactor.step sampleDecoding) v [.handle, .loop]).any (fun u =>
              u.tasks = [] ∧ u.readyCoros = [] ∧ u.sends 0 = 0) = true) = true) = true :=
                exec_any (by decide +kernel)
  obtain ⟨hids, hfind, hpaused, hframed, hv⟩ := of_decide_eq_true hd
  obtain ⟨v, hv, hlast⟩ := exec_any hv
  obtain ⟨hsent, hlast⟩ := of_decide_eq_true hlast
  obtain ⟨u, hu, hquiet⟩ := exec_any hlast
  obtain ⟨htasks, hcoros, hsends⟩ := of_decide_eq_true hquiet
  have hu : exec (Reactor.step sampleDecoding) t (attendedRun ++ [.handle, .loop]) = some u := by
    rw [exec_append, show exec _ t attendedRun = some v from hv]
    exact hu
  have hrun : Run (record sampleDecoding) (fun _ a => Serialises a) (listening, {}) pausedRun
      (t, g) :=
    .of_exec ht (by decide +kernel)
  have hs := sound_record hrun
  have ha : t.Active 0 := (active_iff hs).mpr (hs.active_of_find hfind).1
  have hlt : t.acquired.length < 2 ^ 64 := by
    rw [show t.acquired = [1] from hids]
    decide
  have hhead : ∃ e ∈ v.cq.head?, e.op = .send ∧
      e.ctx = some 0 := by simpa [Option.any_eq_true] using hsent
  obtain ⟨σ, α, hzero, hpath, hattended⟩ :=
    attended_path hu hframed hv hhead htasks hcoros hsends
  obtain ⟨hcount, -, hends⟩ := backpressure_accounted sampleDecoding (accountable_run hrun hlt) 0 ha
  exact ⟨t, σ, α, accountable_run hrun hlt, hpaused, hcount, hzero, hattended,
    hends σ α hzero hpath hattended⟩

/-- A request is dispatched, and its response does not serialise. -/
def unserialisedRun : List Action := acceptRun ++
  [.enter 2, .recvDone 1 [8, 0, 0, 0, 10, 1, 85, 18, 1, 76, 32, 1], .wake, .handle, .loop, .enter 1,
    .workerDone 0 none, .eventfdWrite, .notifyDone 0, .wake, .handle, .loop]

theorem unserialised_sample :
    ∃ t, exec (Reactor.step sampleDecoding) listening unserialisedRun = some t ∧
    t.pc = .entering ∧ t.Active 0 ∧
    (t.ctx 0).pendingReqs ≠ t.unresumed (t.ctx 0).connId + (t.ctx 0).outQueue.length := by
  obtain ⟨t, ht, hd⟩ : ∃ t, exec (Reactor.step sampleDecoding) listening unserialisedRun = some t ∧
      decide (t.find 5 = some 0 ∧ t.pc = .entering ∧ (t.ctx 0).pendingReqs = 1 ∧ t.tasks = [] ∧
        t.readyCoros = [] ∧
        (t.ctx 0).outQueue = []) = true := exec_any (by decide)
  obtain ⟨hfind, hpc, hpending, htasks, hready, hq⟩ := of_decide_eq_true hd
  have hs : t.view.Sound := sound_run (.of_exec ht (by decide))
  refine ⟨t, ht, hpc, (active_iff hs).mpr (hs.active_of_find hfind).1, ?_⟩
  rw [hpending, unresumed, htasks, hready, hq]
  simp

end Reactor

end KimRpc.Server
