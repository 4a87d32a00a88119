import KimRpc.Server.Pending

/-! The read of the eventfd, by which the event loop learns of coroutines to be resumed.
It is on its way at all times, provided that it can always be submitted again at once. -/

namespace KimRpc.Server

open Library.Runs Wire

namespace Reactor

variable {D : Decoding} (s t : Reactor) (a : Action) (p : ℕ)

/-- When its completion has been handled, the read finds a free entry in the submission queue. -/
def Rearms : Prop :=
  a = .handle → ∀ e ∈ s.cq.head?, e.op = .notify →
    ({ s with cq := s.cq.tail } : Reactor).handleNotify.sq.length < kSqEntries

instance : Decidable (s.Rearms a) :=
  inferInstanceAs (Decidable (_ = _ → ∀ e ∈ s.cq.head?, e.op = .notify → _ < _))

structure Heard : Prop where
  armed : s.notifies = 1
  pending : s.notifyPending = false
  announced : s.readyCoros ≠ [] → 0 < s.unwritten ∨ 0 < s.eventfd ∨ ∃ e ∈ s.cq, e.op = .notify

variable {s t a p}

lemma notifies_complete {o : Op} {i : ℕ} (result : ℤ) (data : Bytes) (hi : s.ops[i]? = some o) :
    (s.complete i result data).notifies = s.notifies := (tags_complete result data hi).count_eq _

lemma notifies_handOver (n : ℕ) :
    (s.handOver n).notifies = s.notifies := (tags_handOver n).count_eq _

lemma notifies_resume (c : Coro) : (s.resume c).notifies = s.notifies ∧
    (s.resume c).notifyPending = s.notifyPending := by
  cases htarget : s.target c with
  | none =>
    rw [resume_of_none htarget]
    exact ⟨rfl, rfl⟩
  | some q =>
    have hc := calm_resume htarget
    exact ⟨hc.notifies, hc.notifyPending⟩

lemma notifies_foldl (cs : List Coro) :
    (cs.foldl resume s).notifies = s.notifies ∧
    (cs.foldl resume s).notifyPending = s.notifyPending := by
  induction cs generalizing s with
  | nil => exact ⟨rfl, rfl⟩
  | cons c cs ih =>
    obtain ⟨hn, hp⟩ := notifies_resume (s := s) c
    rw [List.foldl_cons, ih.1, ih.2, hn, hp]
    exact ⟨rfl, rfl⟩

lemma notifies_pop {e : Cqe} {rest : List Cqe} (hcq : s.cq = e :: rest) (hop : e.op ≠ .notify) :
    ({ s with cq := rest } : Reactor).notifies = s.notifies := by
  have hcount := (tags_pop hcq).count_eq (none, .notify)
  rw [List.count_cons_of_ne (by simp [hop])] at hcount
  exact hcount.symm

lemma notifies_pop_notify {e : Cqe} {rest : List Cqe} (hcq : s.cq = e :: rest)
    (hop : e.op = .notify)
    (hctx : e.ctx = none) : ({ s with cq := rest } : Reactor).notifies + 1 = s.notifies := by
  have hcount := (tags_pop hcq).count_eq (none, .notify)
  rw [hctx, hop, List.count_cons_self] at hcount
  exact hcount.symm

lemma notifies_submit {op : OpType} (h : s.submit ⟨op, 0, none, [], 0⟩ = some t) :
    t.notifies = s.notifies + if op = .notify then 1 else 0 := by
  have hcount := (tags_submit h).count_eq (none, .notify)
  rw [List.count_cons] at hcount
  rw [notifies, hcount, notifies]
  by_cases hop : op = .notify
  · simp [hop]
  · simp [hop]

lemma retryDeferred_heard (h : s.notifyPending = false) :
    s.retryDeferred.notifies = s.notifies ∧ s.retryDeferred.notifyPending = false := by
  unfold retryDeferred
  by_cases haccept : s.acceptPending = true
  · cases hsubmit : s.submitAccept with
    | none => simp [haccept, h, notifies, tags]
    | some t =>
      have hcount := notifies_submit hsubmit
      have hpending : t.notifyPending = false := by
        rw [submit_eq hsubmit]
        exact h
      simp only [haccept, ↓reduceIte, Option.map_some, Option.getD_some, hpending,
        Bool.false_eq_true]
      exact ⟨hcount, trivial⟩
  · simp [haccept, h, notifies, tags]

lemma Heard.calm {e : Cqe} {rest : List Cqe} (h : s.Heard) (hcq : s.cq = e :: rest)
    (hop : e.op ≠ .notify)
    (hn : t.notifies = ({ s with cq := rest } : Reactor).notifies)
    (hp : t.notifyPending = s.notifyPending)
    (hr : t.readyCoros = s.readyCoros) (hw : t.unwritten = s.unwritten) (he : t.eventfd = s.eventfd)
    (hq : t.cq = rest) : t.Heard := by
  refine ⟨?_, hp.trans h.pending, ?_⟩
  · rw [hn, notifies_pop hcq hop, h.armed]
  · rw [hr, hw, he, hq]
    intro hready
    rcases h.announced hready with hunwritten | hevent | ⟨e', he', hop'⟩
    · exact .inl hunwritten
    · exact .inr (.inl hevent)
    · rw [hcq] at he'
      rcases List.mem_cons.mp he' with rfl | hrest
      · exact absurd hop' hop
      · exact .inr (.inr ⟨e', hrest, hop'⟩)

lemma Heard.turn {e : Cqe} {rest : List Cqe} (hs : s.view.Sound) (h : s.Heard)
    (hok : s.Rearms .handle)
    (hcq : s.cq = e :: rest) (ht : t = ({ s with cq := rest } : Reactor).handleCqe D e) :
    t.Heard := by
  have hturn := turn_handleCqe (D := D) hs hcq
  rw [← ht] at hturn
  cases hturn with
  | calm _ _ hop hc =>
    exact h.calm hcq hop hc.notifies hc.notifyPending hc.readyCoros hc.unwritten hc.eventfd hc.cq
  | accepted hop _ hc =>
    exact h.calm hcq (by simp [hop]) hc.notifies hc.notifyPending hc.readyCoros hc.unwritten
      hc.eventfd hc.cq
  | read p hop _ _ hc =>
    exact h.calm hcq (by simp [hop]) hc.notifies hc.notifyPending hc.readyCoros hc.unwritten
      hc.eventfd hc.cq
  | sent p hop _ _ _ _ hc =>
    exact h.calm hcq (by simp [hop]) hc.notifies hc.notifyPending hc.readyCoros hc.unwritten
      hc.eventfd hc.cq
  | notified hop ht =>
    have hfree := hok rfl e (by simp [hcq]) hop
    rw [hcq, List.tail_cons] at hfree
    have hpop := notifies_pop_notify hcq hop (ctx_of_notify hs hcq hop)
    rw [h.armed] at hpop
    obtain ⟨hn, hp⟩ := notifies_foldl (s := { s with cq := rest, readyCoros := [] }) s.readyCoros
    have hready :=
      (parallel_foldl (s := { s with cq := rest, readyCoros := [] }) s.readyCoros).readyCoros
    have hsubmit : ({ s with cq := rest } : Reactor).handleNotify.submitNotifyRead = some t := by
      rw [ht, retryNotify]
      simp [submitNotifyRead, submit, hfree]
    have harmed := notifies_submit hsubmit
    have hzero : ({ s with cq := rest } : Reactor).handleNotify.notifies = 0 := by
      have hsame : ({ s with cq := rest } : Reactor).handleNotify.notifies =
          ({ s with cq := rest } : Reactor).notifies := hn
      omega
    rw [hzero] at harmed
    have hshape := submit_eq hsubmit
    refine ⟨harmed, ?_, ?_⟩
    · rw [hshape]
      exact hp.trans h.pending
    · intro hne
      rw [hshape] at hne
      exact absurd hready hne

lemma Heard.complete {o : Op} {i : ℕ} (h : s.Heard) (result : ℤ) (data : Bytes)
    (hi : s.ops[i]? = some o) :
    (s.complete i result data).Heard := by
  have hn := notifies_complete result data hi
  have hshape : s.complete i result data =
      { s with ops := s.ops.eraseIdx i, cq := s.cq ++ [⟨o.sqe.op, o.sqe.ctx, result, data⟩] } := by
    simp only [Reactor.complete, hi]
  rw [hshape] at hn ⊢
  refine ⟨hn.trans h.armed, h.pending, fun hready => ?_⟩
  rcases h.announced hready with hunwritten | hevent | ⟨e, he, hop⟩
  · exact .inl hunwritten
  · exact .inr (.inl hevent)
  · exact .inr (.inr ⟨e, List.mem_append_left _ he, hop⟩)

lemma Heard.effect (h : s.Heard) (hen : s.Enabled a) (hhandle : a ≠ .handle) :
    (s.effect D a).Heard := by
  cases a with
  | handle => exact absurd rfl hhandle
  | enter n =>
    have hn := notifies_handOver (s := s) n
    exact ⟨hn.trans h.armed, h.pending, h.announced⟩
  | interrupted => exact ⟨h.armed, h.pending, h.announced⟩
  | loop => exact ⟨h.armed, h.pending, h.announced⟩
  | wake =>
    obtain ⟨hn, hp⟩ := retryDeferred_heard h.pending
    obtain ⟨sq, b, b', hshape⟩ := retryDeferred_shape (s := s)
    refine ⟨hn.trans h.armed, hp, ?_⟩
    simp only [Reactor.effect, hshape]
    exact h.announced
  | acceptDone i fd =>
    obtain ⟨⟨o, ho, _⟩, _⟩ := hen
    have hdone := h.complete fd [] ho
    exact ⟨hdone.armed, hdone.pending, hdone.announced⟩
  | recvDone i data =>
    obtain ⟨⟨o, ho, _⟩, _⟩ := hen
    have hdone := h.complete data.length data ho
    simp only [Reactor.effect]
    cases (s.ops[i]?).bind Op.socket with
    | none => exact h
    | some k => exact ⟨hdone.armed, hdone.pending, hdone.announced⟩
  | sendDone i n =>
    obtain ⟨⟨o, ho, _⟩, _⟩ := hen
    exact h.complete _ _ ho
  | notifyDone i =>
    obtain ⟨⟨o, ho, hop, _⟩, _⟩ := hen
    have hi : s.ops[i]? = some o := ho
    have hdone := h.complete 8 [] hi
    refine ⟨hdone.armed, hdone.pending, fun _ => .inr (.inr ?_)⟩
    simp only [Reactor.effect, Reactor.complete, hi]
    exact ⟨_, List.mem_append_right _ List.mem_cons_self, hop⟩
  | opFail i result =>
    obtain ⟨hin, _⟩ := hen
    obtain ⟨o, ho⟩ := Option.ne_none_iff_exists'.mp hin
    exact h.complete _ _ ho
  | workerDone i responseStr =>
    simp only [Reactor.effect, workerDone]
    cases s.tasks[i]? with
    | none => exact h
    | some task => exact ⟨h.armed, h.pending, fun _ => .inl (Nat.succ_pos _)⟩
  | eventfdWrite => exact ⟨h.armed, h.pending, fun _ => .inr (.inl (Nat.succ_pos _))⟩

lemma heard_run {as : List Action} (h : Run (Reactor.step D) Rearms listening as t) : t.Heard := by
  refine h.invariant_with (K := fun s => s.view.Sound) (I := Heard) ?_
    (fun _ _ hr => sound_run hr.any) ?_
  · exact ⟨rfl, rfl, fun hne => absurd rfl hne⟩
  · intro s a t hs _ hi hok hstep
    obtain ⟨hen, ht⟩ := step_cases hstep
    by_cases hhandle : a = .handle
    · subst hhandle
      cases hcq : s.cq with
      | nil => exact absurd hcq hen.2
      | cons e rest =>
        simp only [Reactor.effect, hcq] at ht
        exact hi.turn hs hok hcq ht
    · rw [ht]
      exact hi.effect hen hhandle

lemma notifies_cases (h : s.notifies = 1) :
    (∃ e ∈ s.sq, e.op = .notify) ∨ (∃ i, s.InKernel i .notify) ∨ ∃ e ∈ s.cq, e.op = .notify := by
  have hmem : (none, OpType.notify) ∈ s.tags := by
    have hone : s.tags.count (none, .notify) = 1 := h
    rw [← List.count_pos_iff]
    omega
  simp only [tags, List.mem_append, List.mem_map, Prod.mk.injEq] at hmem
  rcases hmem with (⟨e, he, _, hop⟩ | ⟨o, ho, _, hop⟩) | ⟨e, he, _, hop⟩
  · exact .inl ⟨e, he, hop⟩
  · obtain ⟨i, hi⟩ := List.mem_iff_getElem?.mp ho
    exact .inr (.inl ⟨i, o, hi, hop, by simp⟩)
  · exact .inr (.inr ⟨e, he, hop⟩)

def crowdRun : ℕ → List Action
  | 0 => [.enter 2, .acceptDone 0 0, .wake, .handle, .loop]
  | n + 1 => crowdRun n ++ [.enter 2, .acceptDone (n + 2) (n + 1), .wake, .handle, .loop]

/-- Each of `n` connections sends a request; when all are answered, the next receives of all
connections complete before the read of the eventfd does. -/
def deafRun (n : ℕ) : List Action :=
  List.flatten
    [[.enter 2], List.replicate n (.recvDone 1 [8, 0, 0, 0, 10, 1, 85, 18, 1, 76, 32, 1]), [.wake],
    List.replicate n .handle, [.loop, .enter n], List.replicate n (.workerDone 0 (some [])),
    [.eventfdWrite],
    List.replicate n (.recvDone 2 [8]), [.notifyDone 0, .wake], List.replicate (n + 1) .handle,
    [.loop]]

set_option maxRecDepth 1000000 in
lemma deafRun_ends :
    (exec (Reactor.step sampleDecoding) listening (crowdRun 127 ++ deafRun 128)).any
    (fun t => decide (t.pc = .entering ∧ t.notifies = 0)) = true := by
  decide +kernel

end Reactor

end KimRpc.Server
