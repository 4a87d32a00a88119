import KimRpc.Server.Pending
import KimRpc.Server.ResponseStreams

/-! Responses find the connection their request came from. A coroutine is resumed with the
frame of a request that was dispatched from the input of the connection with its id, and
the frame goes to that connection if it is still open, and nowhere else. -/

namespace KimRpc.Server

open Library.Runs Wire

def Serialises (a : Reactor.Action) : Prop := ∀ i, a ≠ .workerDone i none

instance (a : Reactor.Action) : Decidable (Serialises a) :=
  match a with
  | .workerDone i none => .isFalse (fun h => h i rfl)
  | .workerDone _ (some _) | .enter _ | .interrupted | .wake | .handle | .loop | .acceptDone _ _ |
      .recvDone _ _
  | .sendDone _ _ | .notifyDone _ | .opFail _ _ | .eventfdWrite => .isTrue nofun

namespace Reactor

variable (D : Decoding) (s t u : Reactor) (a : Action) (g g' : Journal) (c : Coro) (p : ℕ)

def Answers : Prop :=
  ∃ ctx task body, (ctx, task) ∈ g.dispatches ∧ task.serial = c.serial ∧ ctx.connId = c.connId ∧
    task.request ∈ (D.uringDecoder.drain ctx.input).1 ∧
    c.frame = responseFrame task.request.requestId body

structure Addressed : Prop where
  sound : u.view.Sound
  only : ∀ p q, u.Open p → u.Open q → (u.ctx p).connId = (u.ctx q).connId → p = q
  fd : ∀ p, u.Open p → (u.ctx p).connId = c.connId → (u.ctx p).fd = c.fd

structure Answering : Prop where
  origins : ∀ ctx task, (ctx, task) ∈ g.dispatches →
    task.connId = ctx.connId ∧ task.request ∈ (D.uringDecoder.drain ctx.input).1
  tasks : ∀ task ∈ s.tasks, ∃ ctx, (ctx, task) ∈ g.dispatches
  coros : ∀ c ∈ s.readyCoros, Answers D g c
  resumed : ∀ u c, (u, c) ∈ g.resumptions → Answers D g c ∧ Addressed u c
  delivered : ∀ p, ∀ c ∈ g.delivered p, c.connId = (s.ctx p).connId ∧
    ∃ u, (u, c) ∈ g.resumptions ∧ u.target c = some p

variable {D s t u a g g' c p}

lemma Answers.mono (h : Answers D g c) (hd : ∀ d ∈ g.dispatches, d ∈ g'.dispatches) :
    Answers D g' c := by
  obtain ⟨ctx, task, body, hmem, hrest⟩ := h
  exact ⟨ctx, task, body, hd _ hmem, hrest⟩

lemma responseFrame_ne_nil (requestId : UInt64) (body : Bytes) :
    responseFrame requestId body ≠ [] := by
  intro h
  have hlength := responseFrame_length requestId body
  rw [h, List.length_nil] at hlength
  omega

lemma Answers.frame (h : Answers D g c) : c.frame ≠ [] := by
  obtain ⟨_, task, body, _, _, _, _, hframe⟩ := h
  rw [hframe]
  exact responseFrame_ne_nil _ body

lemma Addressed.target_iff (h : Addressed u c) (hframe : c.frame ≠ []) :
    u.target c = some p ↔ u.Open p ∧ (u.ctx p).connId = c.connId := by
  constructor
  · intro htarget
    obtain ⟨_, hfind, hid⟩ := target_find htarget
    have hfd : (u.ctx p).fd = c.fd := (h.sound.world.maps _ _ hfind).2
    refine ⟨?_, hid⟩
    rw [Open, hfd]
    exact hfind
  · rintro ⟨hopen, hid⟩
    have hfind : u.find c.fd = some p := by
      rw [← h.fd p hopen hid]
      exact hopen
    simp [target, hframe, hfind, hid]

lemma Matched.addressed (hm : s.Matched) (hu : Parallel { s with readyCoros := [] } u)
    (hs : u.view.Sound)
    (hc : c ∈ s.readyCoros) : Addressed u c := by
  have hopen : ∀ p, u.Open p → s.Open p := fun p hp => hu.opened hp
  refine ⟨hs, fun p q hp hq heq => ?_, fun p hp heq => ?_⟩
  · rw [hu.connId, hu.connId] at heq
    exact hm.apart p q (hopen p hp) (hopen q hq) heq
  · rw [hu.connId] at heq
    rw [hu.fd]
    exact hm.coros c hc p (hopen p hp) heq

lemma Answering.mono (h : Answering D s g) (hd : ∀ d ∈ g.dispatches, d ∈ g'.dispatches)
    (ho : ∀ ctx task, (ctx, task) ∈ g'.dispatches →
      task.connId = ctx.connId ∧ task.request ∈ (D.uringDecoder.drain ctx.input).1)
    (htasks : ∀ task ∈ t.tasks, task ∈ s.tasks ∨ ∃ ctx, (ctx, task) ∈ g'.dispatches)
    (hcoros : ∀ c ∈ t.readyCoros, c ∈ s.readyCoros ∨ Answers D g' c)
    (hr : ∀ u c, (u, c) ∈ g'.resumptions → (u, c) ∈ g.resumptions ∨ Answers D g' c ∧ Addressed u c)
    (hdel : ∀ p, ∀ c ∈ g'.delivered p, c.connId = (t.ctx p).connId ∧
      ∃ u, (u, c) ∈ g'.resumptions ∧ u.target c = some p) : Answering D t g' := by
  refine ⟨ho, fun task htask => ?_, fun c hc => ?_, fun u c hmem => ?_, hdel⟩
  · rcases htasks task htask with hold | hnew
    · obtain ⟨ctx, hmem⟩ := h.tasks task hold
      exact ⟨ctx, hd _ hmem⟩
    · exact hnew
  · rcases hcoros c hc with hold | hnew
    · exact (h.coros c hold).mono hd
    · exact hnew
  · rcases hr u c hmem with hold | hnew
    · obtain ⟨hanswers, haddressed⟩ := h.resumed u c hold
      exact ⟨hanswers.mono hd, haddressed⟩
    · exact hnew

lemma Answering.change (h : Answering D s g) (hs : s.view.Sound) (hm : s.Matched)
    (ha : Serialises a)
    (hc : Change D s t a g g') : Answering D t g' := by
  cases hc with
  | steady hst hd hr hp =>
    refine h.mono ?_ ?_ ?_ ?_ ?_ ?_
    · rw [hd]
      exact fun _ h => h
    · rw [hd]
      exact h.origins
    · rw [hst.tasks]
      exact fun _ h => .inl h
    · rw [hst.readyCoros]
      exact fun _ h => .inl h
    · rw [hr]
      exact fun _ _ h => .inl h
    · rw [hp, hr]
      intro p c hc
      rw [hst.connId]
      exact h.delivered p c hc
  | accepted e _ _ _ _ hst hg =>
    rw [hg]
    refine h.mono (fun _ h => h) h.origins ?_ ?_ (fun _ _ h => .inl h) ?_
    · rw [hst.tasks]
      exact fun _ h => .inl h
    · rw [hst.readyCoros]
      exact fun _ h => .inl h
    · intro p c hc
      have hopened : (g.opened s.mgr.idle.1).delivered = Function.update g.delivered s.mgr.idle.1
          [] := rfl
      by_cases hp : p = s.mgr.idle.1
      · rw [hp, hopened, Function.update_self] at hc
        cases hc
      · rw [hopened, Function.update_of_ne hp] at hc
        rw [hst.connId, ctx_acquire_ne hp]
        exact h.delivered p c hc
  | read e p c _ _ _ hst hmapped hid hg =>
    rw [hg]
    have hnew : t.tasks.drop s.tasks.length = (D.uringDecoder.drain c.input).1.mapIdx
        (fun i r => ⟨(s.ctx p).fd, (s.ctx p).connId, r, s.dispatched + i⟩) := by
      rw [hst.tasks, dispatch, List.drop_left]
    refine h.mono (fun _ h => List.mem_append_left _ h) ?_ ?_ ?_ (fun _ _ h => .inl h) ?_
    · intro ctx task hmem
      rcases List.mem_append.mp hmem with hold | hadded
      · exact h.origins ctx task hold
      · rw [hnew] at hadded
        obtain ⟨task', htask', heq⟩ := List.mem_map.mp hadded
        cases heq
        obtain ⟨i, hi, rfl⟩ := List.mem_mapIdx.mp htask'
        exact ⟨hid.symm, List.getElem_mem hi⟩
    · intro task htask
      rw [hst.tasks] at htask
      rcases List.mem_append.mp htask with hold | hadded
      · exact .inl hold
      · refine .inr ⟨c, List.mem_append_right _ (List.mem_map.mpr ⟨task, ?_, rfl⟩)⟩
        rw [hnew]
        exact hadded
    · rw [hst.readyCoros]
      exact fun _ h => .inl h
    · intro q c hc
      have hconn : (t.ctx q).connId = (s.ctx q).connId :=
        (hst.connId q).trans (names_dispatch _ q).2
      rw [hconn]
      exact h.delivered q c hc
  | notified e rest _ hcq hop hst hg =>
    rw [hg]
    have hsound : ({ s with cq := rest, readyCoros := [] } : Reactor).view.Sound :=
      sound_pop_none hcq hs (ctx_of_notify hs hcq hop)
    have hfold := parallel_foldl (s := { s with cq := rest, readyCoros := [] }) s.readyCoros
    have hconn : ∀ q, (t.ctx q).connId = (s.ctx q).connId :=
      fun q => (hst.connId q).trans (hfold.connId q)
    refine h.mono (fun _ h => h) h.origins ?_ ?_ ?_ ?_
    · have htasks : t.tasks = s.tasks := hst.tasks.trans hfold.tasks
      rw [htasks]
      exact fun _ h => .inl h
    · have hready : t.readyCoros = [] := hst.readyCoros.trans hfold.readyCoros
      rw [hready]
      intro c hc
      cases hc
    · intro u c hmem
      rcases List.mem_append.mp hmem with hold | hnew
      · exact .inl hold
      · obtain ⟨hu, hus, hc⟩ := mem_resumptions hsound hnew
        have hm' : ({ s with cq := rest } : Reactor).Matched := ⟨hm.apart, hm.tasks, hm.coros⟩
        exact .inr ⟨(h.coros c hc).mono (fun _ h => h), hm'.addressed hu hus hc⟩
    · intro p c hc
      rw [hconn]
      rcases List.mem_append.mp hc with hold | hnew
      · obtain ⟨hid, u, hu, htarget⟩ := h.delivered p c hold
        exact ⟨hid, u, List.mem_append_left _ hu, htarget⟩
      · obtain ⟨⟨u, c'⟩, hmem, rfl⟩ := List.mem_map.mp hnew
        rw [List.mem_filter, decide_eq_true_eq] at hmem
        obtain ⟨hmem, htarget⟩ := hmem
        obtain ⟨hu, _, _⟩ := mem_resumptions hsound hmem
        refine ⟨?_, u, List.mem_append_right _ hmem, htarget⟩
        rw [← (target_find htarget).2.2, hu.connId]
        rfl
  | answered i responseStr ha' ht hg =>
    rw [ht, hg]
    cases hi : s.tasks[i]? with
    | none =>
      simp only [workerDone, hi]
      exact h
    | some task =>
      rw [workerDone_eq responseStr hi]
      refine h.mono (fun _ h => h) h.origins ?_ ?_ (fun _ _ h => .inl h) h.delivered
      · exact fun _ h => .inl (List.mem_of_mem_eraseIdx h)
      · intro c hc
        rcases List.mem_append.mp hc with hold | hnew
        · exact .inl hold
        · rw [List.mem_singleton.mp hnew]
          obtain ⟨ctx, hmem⟩ := h.tasks task (List.mem_of_getElem? hi)
          obtain ⟨hid, hrequest⟩ := h.origins ctx task hmem
          cases responseStr with
          | none => exact absurd ha' (ha i)
          | some body => exact .inr ⟨ctx, task, body, hmem, rfl, hid.symm, hrequest, rfl⟩
  | sent p n hst _ _ _ hg =>
    rw [hg]
    refine h.mono (fun _ h => h) h.origins ?_ ?_ (fun _ _ h => .inl h) ?_
    · rw [hst.tasks]
      exact fun _ h => .inl h
    · rw [hst.readyCoros]
      exact fun _ h => .inl h
    · intro q c hc
      have hconn : (t.ctx q).connId = (s.ctx q).connId := (hst.connId q).trans (names_advance _ q).2
      rw [hconn]
      exact h.delivered q c hc

lemma answering_run {as : List Action} {x : Reactor × Journal}
    (h : Run (record D) (fun x a => Serialises a ∧ x.1.FreshId a) (listening, {}) as x) :
    Answering D x.1 x.2 := by
  have hboth : Answering D x.1 x.2 ∧ x.1.Matched := by
    apply record_invariant (I := fun s g => Answering D s g ∧ s.Matched) h
    · exact ⟨⟨nofun, nofun, nofun, nofun, nofun⟩, ⟨nofun, nofun, nofun⟩⟩
    · intro s g a t g' hs _ hi hok hc
      exact ⟨hi.1.change hs hi.2 hok.1 hc, hi.2.change hok.2 hc⟩
  exact hboth.1

end Reactor

end KimRpc.Server
