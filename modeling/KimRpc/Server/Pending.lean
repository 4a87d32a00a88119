import KimRpc.Server.Journal

/-! Requests between their dispatch and the resumption of their coroutines. None is lost
and none is resumed twice. While no connection is given an id that is in use, a request
that carries the id of an open connection carries its descriptor as well. -/

namespace KimRpc.Server

open Library.Runs Wire

namespace Reactor

variable (D : Decoding) (s t : Reactor) (a : Action) (g g' : Journal) (p : ℕ)

def Open : Prop := s.find (s.ctx p).fd = some p

def Unused (id : UInt64) : Prop :=
  (∀ p, s.Open p → (s.ctx p).connId ≠ id) ∧ (∀ task ∈ s.tasks, task.connId ≠ id) ∧
  ∀ c ∈ s.readyCoros, c.connId ≠ id

/-- A connection that is accepted gets an id that no open connection and no request on its way has.
-/
def FreshId : Prop :=
  a = .handle → ∀ e ∈ s.cq.head?, e.op = .accept → 0 ≤ e.result → s.Unused s.mgr.nextId

structure Parallel : Prop where
  fd : ∀ q, (t.ctx q).fd = (s.ctx q).fd
  connId : ∀ q, (t.ctx q).connId = (s.ctx q).connId
  written : ∀ q, (t.ctx q).written = (s.ctx q).written
  pendingReqs : ∀ q, (t.ctx q).pendingReqs = (s.ctx q).pendingReqs
  find : ∀ fd p, t.find fd = some p → s.find fd = some p
  tasks : t.tasks = s.tasks
  dispatched : t.dispatched = s.dispatched
  readyCoros : t.readyCoros = s.readyCoros
  acquired : t.acquired = s.acquired

structure Matched : Prop where
  apart : ∀ p q, s.Open p → s.Open q → (s.ctx p).connId = (s.ctx q).connId → p = q
  tasks : ∀ task ∈ s.tasks, ∀ p, s.Open p → (s.ctx p).connId = task.connId → (s.ctx p).fd = task.fd
  coros : ∀ c ∈ s.readyCoros, ∀ p, s.Open p → (s.ctx p).connId = c.connId → (s.ctx p).fd = c.fd

structure Conserved : Prop where
  dispatches : g.dispatches.map (fun d => d.2.serial) = List.range s.dispatched
  serials : (s.tasks.map Task.serial ++ s.readyCoros.map Coro.serial ++
    g.resumptions.map (fun r => r.2.serial)).Perm (List.range s.dispatched)

variable {D s t a g g' p} {u : Reactor}

lemma open_iff (h : s.view.Sound) : s.Open p ↔ s.Active p := by
  constructor
  · intro ho
    exact (active_iff h).mpr (h.active_of_find ho).1
  · intro ha
    exact (ha.mapped _).mpr rfl

section parallel

lemma Parallel.refl (s : Reactor) : Parallel s s :=
  ⟨fun _ => rfl, fun _ => rfl, fun _ => rfl, fun _ => rfl, fun _ _ h => h, rfl, rfl, rfl, rfl⟩

lemma Parallel.trans (h : Parallel s t) (h' : Parallel t u) : Parallel s u where
  fd q := (h'.fd q).trans (h.fd q)
  connId q := (h'.connId q).trans (h.connId q)
  written q := (h'.written q).trans (h.written q)
  pendingReqs q := (h'.pendingReqs q).trans (h.pendingReqs q)
  find fd p hp := h.find fd p (h'.find fd p hp)
  tasks := h'.tasks.trans h.tasks
  dispatched := h'.dispatched.trans h.dispatched
  readyCoros := h'.readyCoros.trans h.readyCoros
  acquired := h'.acquired.trans h.acquired

lemma Steady.parallel (h : Steady s t) : Parallel s t :=
  ⟨h.fd, h.connId, h.written, h.pendingReqs, h.find, h.tasks, h.dispatched, h.readyCoros,
    h.acquired⟩

lemma Parallel.opened (h : Parallel s t) (hp : t.Open p) : s.Open p := by
  have hfind := h.find _ _ hp
  rw [h.fd] at hfind
  exact hfind

lemma parallel_push (data : Bytes) :
    Parallel s (s.modify p (fun ctx => { ctx with outQueue := ctx.outQueue ++ [data] })) := by
  refine { Parallel.refl s with
      fd := fun q => ?_, connId := fun q => ?_, written := fun q => ?_, pendingReqs := fun q => ?_ }
  all_goals
    rw [ctx_modify_apply]
    split_ifs <;> rfl

lemma parallel_resume (c : Coro) : Parallel s (s.resume c) := by
  cases htarget : s.target c with
  | none =>
    rw [resume_of_none htarget]
    exact Parallel.refl s
  | some q => exact (parallel_push c.frame).trans (calm_resume htarget).parallel

lemma parallel_foldl (cs : List Coro) : Parallel s (cs.foldl resume s) := by
  induction cs generalizing s with
  | nil => exact Parallel.refl s
  | cons c cs ih => exact (parallel_resume c).trans ih

lemma resumptions_coros (s : Reactor) (cs : List Coro) : (s.resumptions cs).map Prod.snd = cs := by
  induction cs generalizing s with
  | nil => rfl
  | cons c cs ih =>
    rw [resumptions, List.map_cons, ih]

lemma mem_resumptions {cs : List Coro} {c : Coro} (hs : s.view.Sound)
    (h : (u, c) ∈ s.resumptions cs) :
    Parallel s u ∧ u.view.Sound ∧ c ∈ cs := by
  induction cs generalizing s with
  | nil => cases h
  | cons c' cs ih =>
    rcases List.mem_cons.mp h with heq | hmem
    · cases heq
      exact ⟨Parallel.refl u, hs, List.mem_cons_self⟩
    · obtain ⟨hp, hu, hc⟩ := ih (sound_resume hs) hmem
      exact ⟨(parallel_resume c').trans hp, hu, List.mem_cons_of_mem c' hc⟩

lemma outQueue_resume (c : Coro) (q : ℕ) :
    ((s.resume c).ctx q).outQueue = (s.ctx q).outQueue ++ if s.target c = some q then [c.frame]
      else [] := by
  cases htarget : s.target c with
  | none => simp [resume_of_none htarget]
  | some p =>
    rw [(calm_resume htarget).outQueue, ctx_modify_apply]
    by_cases hq : q = p
    · simp [hq]
    · simp [hq, Ne.symm hq]

end parallel

section matched

lemma Matched.mono (h : s.Matched) (hfd : ∀ q, (t.ctx q).fd = (s.ctx q).fd)
    (hid : ∀ q, (t.ctx q).connId = (s.ctx q).connId)
    (hfind : ∀ fd p, t.find fd = some p → s.find fd = some p)
    (htasks : ∀ task ∈ t.tasks, task ∈ s.tasks) (hcoros : ∀ c ∈ t.readyCoros, c ∈ s.readyCoros) :
    t.Matched := by
  have hopen : ∀ p, t.Open p → s.Open p := by
    intro p hp
    have hp' := hfind _ _ hp
    rw [hfd] at hp'
    exact hp'
  refine ⟨fun p q hp hq heq => ?_, fun task htask p hp heq => ?_, fun c hc p hp heq => ?_⟩
  · rw [hid, hid] at heq
    exact h.apart p q (hopen p hp) (hopen q hq) heq
  · rw [hid] at heq
    rw [hfd]
    exact h.tasks task (htasks task htask) p (hopen p hp) heq
  · rw [hid] at heq
    rw [hfd]
    exact h.coros c (hcoros c hc) p (hopen p hp) heq

lemma Matched.parallel (h : s.Matched) (hp : Parallel s t) : t.Matched := by
  refine h.mono hp.fd hp.connId hp.find ?_ ?_
  · rw [hp.tasks]
    exact fun _ h => h
  · rw [hp.readyCoros]
    exact fun _ h => h

lemma open_acquire {fd : ℕ} (hp : (s.acquire fd).Open p) (hne : p ≠ s.mgr.idle.1) : s.Open p := by
  unfold Open at hp ⊢
  rw [ctx_acquire_ne hne] at hp
  simp only [find, acquire, ConnectionManager.find, ConnectionManager.acquire_eq,
    Function.update_apply] at hp
  split_ifs at hp with hfd
  · exact absurd (Option.some.inj hp).symm hne
  · exact hp

lemma Matched.acquire {fd : ℕ} (h : s.Matched) (hfresh : s.Unused s.mgr.nextId) :
    (s.acquire fd).Matched := by
  obtain ⟨hopen, htasks, hcoros⟩ := hfresh
  have hid : ((s.acquire fd).ctx s.mgr.idle.1).connId = s.mgr.nextId := by rw [ctx_acquire]
  refine ⟨fun p q hp hq heq => ?_, fun task htask p hp heq => ?_, fun c hc p hp heq => ?_⟩
  · by_cases hp' : p = s.mgr.idle.1 <;> by_cases hq' : q = s.mgr.idle.1
    · exact hp'.trans hq'.symm
    · rw [hp', hid, ctx_acquire_ne hq'] at heq
      exact absurd heq.symm (hopen q (open_acquire hq hq'))
    · rw [hq', hid, ctx_acquire_ne hp'] at heq
      exact absurd heq (hopen p (open_acquire hp hp'))
    · rw [ctx_acquire_ne hp', ctx_acquire_ne hq'] at heq
      exact h.apart p q (open_acquire hp hp') (open_acquire hq hq') heq
  · by_cases hp' : p = s.mgr.idle.1
    · rw [hp', hid] at heq
      exact absurd heq.symm (htasks task htask)
    · rw [ctx_acquire_ne hp'] at heq ⊢
      exact h.tasks task htask p (open_acquire hp hp') heq
  · by_cases hp' : p = s.mgr.idle.1
    · rw [hp', hid] at heq
      exact absurd heq.symm (hcoros c hc)
    · rw [ctx_acquire_ne hp'] at heq ⊢
      exact h.coros c hc p (open_acquire hp hp') heq

lemma mem_dispatch {requests : List Request} {task : Task}
    (h : task ∈ (s.dispatch p requests).tasks) :
    task ∈ s.tasks ∨ task.fd = (s.ctx p).fd ∧ task.connId = (s.ctx p).connId ∧
    task.request ∈ requests := by
  rcases List.mem_append.mp h with hold | hnew
  · exact .inl hold
  · obtain ⟨i, hi, rfl⟩ := List.mem_mapIdx.mp hnew
    exact .inr ⟨rfl, rfl, List.getElem_mem hi⟩

lemma Matched.dispatch {requests : List Request} (h : s.Matched) (hp : s.Open p) :
    (s.dispatch p requests).Matched := by
  have hname := names_dispatch (s := s) (p := p) requests
  have hopen : ∀ q, (s.dispatch p requests).Open q → s.Open q := by
    intro q hq
    unfold Open at hq
    rw [(hname q).1] at hq
    exact hq
  refine ⟨fun q q' hq hq' heq => ?_, fun task htask q hq heq => ?_, fun c hc q hq heq => ?_⟩
  · rw [(hname q).2, (hname q').2] at heq
    exact h.apart q q' (hopen q hq) (hopen q' hq') heq
  · rw [(hname q).2] at heq
    rw [(hname q).1]
    rcases mem_dispatch htask with hold | ⟨hfd, hid, _⟩
    · exact h.tasks task hold q (hopen q hq) heq
    · rw [h.apart q p (hopen q hq) hp (heq.trans hid), hfd]
  · rw [(hname q).2] at heq
    rw [(hname q).1]
    exact h.coros c hc q (hopen q hq) heq

lemma workerDone_eq {i : ℕ} {task : Task} (responseStr : Option Bytes)
    (hi : s.tasks[i]? = some task) :
    s.workerDone i responseStr = { s with
      tasks := s.tasks.eraseIdx i, unwritten := s.unwritten + 1,
      readyCoros :=
        s.readyCoros ++ [⟨task.fd, task.connId, onPoolDone task.request.requestId responseStr,
        task.serial⟩] } := by
  simp only [workerDone, hi]

lemma Matched.workerDone {i : ℕ} {responseStr : Option Bytes} (h : s.Matched) :
    (s.workerDone i responseStr).Matched := by
  cases hi : s.tasks[i]? with
  | none =>
    simp only [Reactor.workerDone, hi]
    exact h
  | some task =>
    rw [workerDone_eq responseStr hi]
    refine ⟨h.apart, fun task' htask' => h.tasks task' (List.mem_of_mem_eraseIdx htask'),
      fun c hc => ?_⟩
    rcases List.mem_append.mp hc with hold | hnew
    · exact h.coros c hold
    · rw [List.mem_singleton.mp hnew]
      exact h.tasks task (List.mem_of_getElem? hi)

lemma Matched.change (h : s.Matched) (hfresh : s.FreshId a) (hc : Change D s t a g g') :
    t.Matched := by
  cases hc with
  | steady hs => exact h.parallel hs.parallel
  | accepted e ha he hop hresult hs =>
    exact (h.acquire (hfresh ha e he hop hresult)).parallel hs.parallel
  | read e p c _ _ _ hs hmapped => exact (h.dispatch hmapped).parallel hs.parallel
  | notified e rest _ _ _ hs =>
    have hempty : ({ s with cq := rest, readyCoros := [] } : Reactor).Matched :=
      ⟨h.apart, h.tasks, nofun⟩
    exact (hempty.parallel (parallel_foldl s.readyCoros)).parallel hs.parallel
  | answered i responseStr _ ht =>
    rw [ht]
    exact h.workerDone
  | sent p n hs =>
    have hname := names_advance (s := s) (p := p) n
    refine Matched.parallel (s := s.modify p (fun ctx => ctx.advance n)) ?_ hs.parallel
    exact h.mono (fun q => (hname q).1) (fun q => (hname q).2) (fun _ _ h => h) (fun _ h => h)
      (fun _ h => h)

end matched

section conserved

lemma Conserved.parallel (h : Conserved s g) (hp : Parallel s t) : Conserved t g := by
  refine ⟨?_, ?_⟩
  · rw [hp.dispatched]
    exact h.dispatches
  · rw [hp.dispatched, hp.tasks, hp.readyCoros]
    exact h.serials

lemma dispatch_serials (requests : List Request) : (s.dispatch p requests).tasks.map Task.serial =
    s.tasks.map Task.serial ++ (List.range requests.length).map (fun i => s.dispatched + i) := by
  simp only [dispatch, List.map_append, List.append_cancel_left_eq]
  apply List.ext_getElem
  · simp
  · intro i _ _
    simp

lemma Conserved.dispatch {c : ConnectionContext} {requests : List Request} (h : Conserved s g)
    (htasks : t.tasks = (s.dispatch p requests).tasks) : Conserved (s.dispatch p requests)
      (g.dispatch c (t.tasks.drop s.tasks.length)) := by
  have hserials := dispatch_serials (s := s) (p := p) requests
  have hnew : (t.tasks.drop s.tasks.length).map Task.serial =
      (List.range requests.length).map (fun i => s.dispatched + i) := by
    rw [List.map_drop, htasks, hserials]
    exact List.drop_left' (List.length_map _)
  have hrange : List.range (s.dispatch p requests).dispatched =
      List.range s.dispatched ++ (List.range requests.length).map (fun i => s.dispatched + i) :=
        List.range_add
  refine ⟨?_, ?_⟩
  · rw [hrange, ← hnew, ← h.dispatches]
    simp [Journal.dispatch, Function.comp_def]
  · rw [hrange, hserials]
    have hold := h.serials
    simp only [List.perm_iff_count, List.count_append] at hold ⊢
    intro n
    have hn := hold n
    simp only [Journal.dispatch, Reactor.dispatch, Reactor.modify] at hn ⊢
    omega

lemma Conserved.notified {rest : List Cqe} (h : Conserved s g) :
    Conserved { s with cq := rest, readyCoros := [] }
      (g.resume
        (({ s with cq := rest, readyCoros := [] } : Reactor).resumptions s.readyCoros)) := by
  refine ⟨h.dispatches, ?_⟩
  have hserials : (({ s with cq := rest, readyCoros := [] } : Reactor).resumptions s.readyCoros).map
      (fun r => r.2.serial) = s.readyCoros.map Coro.serial := by
    have hcoros := congrArg (List.map Coro.serial)
      (resumptions_coros { s with cq := rest, readyCoros := [] } s.readyCoros)
    rw [List.map_map] at hcoros
    exact hcoros
  have hold := h.serials
  simp only [List.perm_iff_count, List.count_append, Journal.resume, List.map_append, hserials,
    List.map_nil,
    List.count_nil] at hold ⊢
  intro n
  have hn := hold n
  omega

lemma Conserved.workerDone {i : ℕ} {responseStr : Option Bytes} (h : Conserved s g) :
    Conserved (s.workerDone i responseStr) g := by
  cases hi : s.tasks[i]? with
  | none =>
    simp only [Reactor.workerDone, hi]
    exact h
  | some task =>
    obtain ⟨hlt, rfl⟩ := List.getElem?_eq_some_iff.mp hi
    rw [workerDone_eq responseStr hi]
    refine ⟨h.dispatches, ?_⟩
    have hperm := (List.getElem_cons_eraseIdx_perm hlt).map Task.serial
    have hold := h.serials
    simp only [List.perm_iff_count, List.count_append, List.map_append, List.map_cons, List.map_nil,
      List.count_cons, List.count_nil] at hold hperm ⊢
    intro n
    have hn := hold n
    have hn' := hperm n
    omega

lemma Conserved.change (h : Conserved s g) (hc : Change D s t a g g') : Conserved t g' := by
  cases hc with
  | steady hs hd hr =>
    have ht := h.parallel hs.parallel
    refine ⟨?_, ?_⟩
    · rw [hd]
      exact ht.dispatches
    · rw [hr]
      exact ht.serials
  | accepted e _ _ _ _ hs hg =>
    have hopened : Conserved (s.acquire e.result.toNat) (g.opened s.mgr.idle.1) :=
      ⟨h.dispatches, h.serials⟩
    rw [hg]
    exact hopened.parallel hs.parallel
  | read e p c _ _ _ hs _ _ hg =>
    rw [hg]
    exact (h.dispatch hs.tasks).parallel hs.parallel
  | notified e rest _ _ _ hs hg =>
    rw [hg]
    exact (h.notified.parallel (parallel_foldl s.readyCoros)).parallel hs.parallel
  | answered i responseStr _ ht hg =>
    rw [ht, hg]
    exact h.workerDone
  | sent p n hs _ _ _ hg =>
    have hsent : Conserved (s.modify p (fun ctx => ctx.advance n)) g := ⟨h.dispatches, h.serials⟩
    rw [hg]
    exact hsent.parallel hs.parallel

end conserved

section run

variable {ok : Reactor × Journal → Action → Prop} {as : List Action} {x : Reactor × Journal}

lemma sound_record (h : Run (record D) ok (listening, {}) as x) : x.1.view.Sound :=
  sound_run (Run.unnoted Any h.any)

lemma issued_record (h : Run (record D) ok (listening, {}) as x) : Issued x.1.mgr x.1.acquired :=
  issued_run (Run.unnoted Any h.any)

lemma record_invariant {I : Reactor → Journal → Prop} (h : Run (record D) ok (listening, {}) as x)
    (hinit : I listening {})
    (hstep : ∀ s g a t g', s.view.Sound → Issued s.mgr s.acquired → I s g → ok (s, g) a →
      Change D s t a g g' → I t g') : I x.1 x.2 := by
  refine h.invariant_with (K := fun x => x.1.view.Sound ∧ Issued x.1.mgr x.1.acquired)
    (I := fun x => I x.1 x.2) hinit
    (fun _ _ hr => ⟨sound_record hr, issued_record hr⟩) ?_
  intro x a y hs _ hi hok hs'
  obtain ⟨ht, hg⟩ := noted_cases hs'
  exact hstep x.1 x.2 a y.1 y.2 hs.1 hs.2 hi hok (change_step hs.1 ht hg)

lemma conserved_run (h : Run (record D) ok (listening, {}) as x) : Conserved x.1 x.2 := by
  apply record_invariant (I := Conserved) h
  · exact ⟨rfl, .nil⟩
  · exact fun s g a t g' _ _ hi _ hc => hi.change hc

end run

structure Registered (s : Reactor) : Prop where
  tasks : ∀ task ∈ s.tasks, task.connId ∈ s.acquired
  coros : ∀ c ∈ s.readyCoros, c.connId ∈ s.acquired

lemma Registered.parallel (h : Registered s) (hp : Parallel s t) : Registered t := by
  refine ⟨?_, ?_⟩
  · rw [hp.tasks, hp.acquired]
    exact h.tasks
  · rw [hp.readyCoros, hp.acquired]
    exact h.coros

lemma held_open (hs : s.view.Sound) (hi : Issued s.mgr s.acquired) (hp : s.Open p) :
    (s.ctx p).connId ∈ s.acquired :=
  hi.held p (hs.world.maps _ p hp).1

lemma Registered.change (h : Registered s) (hs : s.view.Sound) (hi : Issued s.mgr s.acquired)
    (hc : Change D s t a g g') : Registered t := by
  cases hc with
  | steady hst => exact h.parallel hst.parallel
  | accepted e _ _ _ _ hst =>
    refine Registered.parallel (s := s.acquire e.result.toNat)
      ⟨fun task htask => ?_, fun c hc => ?_⟩ hst.parallel
    · exact List.mem_append_left _ (h.tasks task htask)
    · exact List.mem_append_left _ (h.coros c hc)
  | read e p c _ _ _ hst hmapped =>
    refine Registered.parallel (s := s.dispatch p _) ⟨fun task htask => ?_, h.coros⟩ hst.parallel
    rcases mem_dispatch htask with hold | ⟨_, hid, _⟩
    · exact h.tasks task hold
    · rw [hid]
      exact held_open hs hi hmapped
  | notified e rest _ _ _ hst =>
    have hempty : Registered { s with cq := rest, readyCoros := [] } := ⟨h.tasks, nofun⟩
    exact (hempty.parallel (parallel_foldl s.readyCoros)).parallel hst.parallel
  | answered i responseStr _ ht =>
    rw [ht]
    cases hi : s.tasks[i]? with
    | none =>
      simp only [workerDone, hi]
      exact h
    | some task =>
      rw [workerDone_eq responseStr hi]
      refine ⟨fun task' htask' => h.tasks task' (List.mem_of_mem_eraseIdx htask'), fun c hc => ?_⟩
      rcases List.mem_append.mp hc with hold | hnew
      · exact h.coros c hold
      · rw [List.mem_singleton.mp hnew]
        exact h.tasks task (List.mem_of_getElem? hi)
  | sent p n hst =>
    exact Registered.parallel (s := s.modify p (fun ctx => ctx.advance n)) ⟨h.tasks, h.coros⟩
      hst.parallel

lemma acquired_le (hc : Change D s t a g g') : s.acquired.length ≤ t.acquired.length := by
  cases hc with
  | steady hst => rw [hst.acquired]
  | accepted e _ _ _ _ hst =>
    rw [hst.acquired]
    simp [acquire]
  | read e p c _ _ _ hst =>
    rw [hst.acquired]
    exact le_rfl
  | notified e rest _ _ _ hst =>
    rw [hst.acquired]
    have hp := (parallel_foldl (s := { s with cq := rest, readyCoros := [] }) s.readyCoros).acquired
    exact (congrArg List.length hp).ge
  | answered i responseStr _ ht =>
    rw [ht, workerDone]
    cases s.tasks[i]? <;> exact le_rfl
  | sent p n hst =>
    rw [hst.acquired]
    exact le_rfl

lemma Registered.unused (h : Registered s) (hs : s.view.Sound) (hi : Issued s.mgr s.acquired)
    (hlt : s.acquired.length < 2 ^ 64) : s.Unused s.mgr.nextId := by
  have hfresh := hi.fresh hlt
  refine ⟨fun p hp heq => ?_, fun task htask heq => ?_, fun c hc heq => ?_⟩
  · exact hfresh (heq ▸ held_open hs hi hp)
  · exact hfresh (heq ▸ h.tasks task htask)
  · exact hfresh (heq ▸ h.coros c hc)

lemma run_freshId {ok : Reactor × Journal → Action → Prop} {as : List Action}
    {x : Reactor × Journal}
    (h : Run (record D) ok (listening, {}) as x) (hlt : x.1.acquired.length < 2 ^ 64) :
    Run (record D) (fun x a => ok x a ∧ x.1.FreshId a) (listening, {}) as x := by
  induction h with
  | nil => exact .nil
  | @snoc as x y a hr hok hstep ih =>
    have hs := sound_record hr
    have hi := issued_record hr
    have hreg : Registered x.1 := by
      apply record_invariant (I := fun s _ => Registered s) hr
      · exact ⟨nofun, nofun⟩
      · exact fun s g a t g' hs hi hreg _ hc => hreg.change hs hi hc
    obtain ⟨ht, hg⟩ := noted_cases hstep
    have hle := acquired_le (change_step hs ht hg)
    have hlt' : x.1.acquired.length < 2 ^ 64 := by omega
    exact .snoc (ih hlt') ⟨hok, fun _ _ _ _ _ => hreg.unused hs hi hlt'⟩ hstep

end Reactor

end KimRpc.Server
