import KimRpc.Library.WaitQueue
import KimRpc.Server.StreamDispatch

/-! The worker threads beside the event loop. The loop submits a task for each request, and
the workers take them from a queue with a mutex and a condition variable. The event loop alone
lets any task be answered at any time; here a task is answered after a worker took it. -/

namespace KimRpc.Server

open Library Library.Runs Wire

def kThreads : ℕ := 4

/-- The event loop with its journal, the tasks that the loop is about to submit one by one, and
the queue of the workers. -/
structure Staffed where
  server : Reactor × Journal
  unsubmitted : List Task
  pool : WaitQueue Task

namespace Staffed

variable (D : Decoding) (x y : Staffed)

inductive Act where
  | loop (a : Reactor.Action)
  | submitTask
  | pool (e : WaitQueue.Event Task)
  deriving DecidableEq

/-- `Run` does not return, so the pool is never stopped; tasks come from the loop only. -/
def ofWorkers : WaitQueue.Event Task → Bool
  | .notifyOne _ | .enter _ | .spurious _ | .finish _ => true
  | .push _ | .pushNotify _ _ | .setStop | .notifyAll => false

def ofLoop : Reactor.Action → Bool
  | .enter _ | .interrupted | .wake | .handle | .loop => true
  | .acceptDone _ _ | .recvDone _ _ | .sendDone _ _ | .notifyDone _ | .opFail _ _ |
      .workerDone _ _ |
    .eventfdWrite => false

/-- The loop goes on when each task of the receive is pushed and its notification made. -/
def resumes (a : Reactor.Action) : Bool := ofLoop a → x.unsubmitted = [] ∧ x.pool.owed = 0

/-- `CallMethod` is what a worker runs, so `done` is not called before the task was taken. -/
def begun : Reactor.Action → Bool
  | .workerDone i _ => ∀ task ∈ x.server.1.tasks[i]?, task ∉ x.pool.queue ++ x.unsubmitted
  | _ => true

def step (x : Staffed) : Act → Option Staffed
  | .loop a =>
    if x.resumes a ∧ x.begun a then
      (Reactor.record D x.server a).map (fun y =>
        ⟨y, x.unsubmitted ++ y.1.tasks.drop x.server.1.tasks.length, x.pool⟩)
    else none
  | .submitTask =>
    match x.unsubmitted with
    | [] => none
    | task :: rest =>
      -- the notification for the task before comes first
      if x.pool.owed = 0 then (x.pool.step (.push [task])).map (fun pool => ⟨x.server, rest, pool⟩)
      else none
  | .pool e =>
    if ofWorkers e then (x.pool.step e).map (fun pool => ⟨x.server, x.unsubmitted, pool⟩) else none

def start : Staffed := ⟨(Reactor.listening, {}), [], WaitQueue.idle kThreads⟩

structure Sound : Prop where
  pool : x.pool.Sound
  workers : x.pool.workers.length = kThreads
  stop : x.pool.stop = false
  submitted : x.pool.pushed ++ x.unsubmitted = x.server.2.dispatches.map Prod.snd
  waiting : ∀ task ∈ x.pool.queue ++ x.unsubmitted, task ∈ x.server.1.tasks

variable {D x y}

section steps

variable {s t : Reactor} {a : Reactor.Action} {g g' : Journal}

lemma tasks_change (h : Reactor.Change D s t a g g') :
    g'.dispatches.map Prod.snd = g.dispatches.map Prod.snd ++ t.tasks.drop s.tasks.length ∧
      (s.tasks <+: t.tasks ∨ ∃ i responseStr, a = .workerDone i responseStr ∧
        t.tasks = s.tasks.eraseIdx i) := by
  have hsame : t.tasks = s.tasks → g'.dispatches = g.dispatches →
      g'.dispatches.map Prod.snd = g.dispatches.map Prod.snd ++ t.tasks.drop s.tasks.length ∧
        (s.tasks <+: t.tasks ∨ ∃ i responseStr, a = .workerDone i responseStr ∧
          t.tasks = s.tasks.eraseIdx i) := by
    intro ht hd
    rw [ht, hd, List.drop_length, List.append_nil]
    exact ⟨rfl, .inl List.prefix_rfl⟩
  cases h with
  | steady hst hd _ _ => exact hsame hst.tasks hd
  | accepted e _ _ _ _ hst hg => exact hsame hst.tasks (by rw [hg]; rfl)
  | read e p c _ _ _ hst _ _ hg =>
    refine ⟨?_, .inl ?_⟩
    · rw [hg, Journal.dispatch, List.map_append, List.map_map, Function.comp_def, List.map_id']
    · rw [hst.tasks]
      exact List.prefix_append _ _
  | notified e rest _ _ _ hst hg =>
    refine hsame (hst.tasks.trans ?_) (by rw [hg]; rfl)
    exact (Reactor.parallel_foldl (s := { s with cq := rest, readyCoros := [] }) s.readyCoros).tasks
  | answered i responseStr ha ht hg =>
    have herase : t.tasks = s.tasks.eraseIdx i := by
      rw [ht, Reactor.workerDone]
      cases hi : s.tasks[i]? with
      | none => exact (List.eraseIdx_of_length_le (List.getElem?_eq_none_iff.mp hi)).symm
      | some task => rfl
    refine ⟨?_, .inr ⟨i, responseStr, ha, herase⟩⟩
    rw [hg, herase, List.drop_eq_nil_of_le (List.length_eraseIdx_le _ _), List.append_nil]
  | sent p n hst _ _ _ hg => exact hsame hst.tasks (by rw [hg])

lemma mem_eraseIdx_of_ne {tasks : List Task} {task : Task} {i : ℕ} (h : task ∈ tasks)
    (hne : tasks[i]? ≠ some task) :
    task ∈ tasks.eraseIdx i := by
  obtain ⟨j, hj⟩ := List.mem_iff_getElem?.mp h
  have hij : j ≠ i := by
    rintro rfl
    exact hne hj
  rw [List.mem_iff_getElem?]
  by_cases hlt : j < i
  · exact ⟨j, by rw [List.getElem?_eraseIdx_of_lt hlt, hj]⟩
  · refine ⟨j - 1, ?_⟩
    rw [List.getElem?_eraseIdx_of_ge (by omega), Nat.sub_add_cancel (by omega), hj]

lemma pool_step {q q' : WaitQueue Task} {e : WaitQueue.Event Task} (he : ofWorkers e = true)
    (h : q.step e = some q') :
    q'.pushed = q.pushed ∧ q'.stop = q.stop ∧ ∀ task ∈ q'.queue, task ∈ q.queue := by
  have hwake : ∀ {u v : WaitQueue Task} {target : Option ℕ}, u.wake target = some v →
      v.pushed = u.pushed ∧ v.stop = u.stop ∧ v.queue = u.queue := by
    intro u v target hv
    cases target with
    | none =>
      simp only [WaitQueue.wake, Option.ite_none_left_eq_some, Option.some.injEq] at hv
      rw [hv.2]
      exact ⟨rfl, rfl, rfl⟩
    | some w =>
      simp only [WaitQueue.wake, Option.ite_none_right_eq_some, Option.some.injEq] at hv
      rw [← hv.2]
      exact ⟨rfl, rfl, rfl⟩
  cases e with
  | notifyOne target =>
    simp only [WaitQueue.step, Option.ite_none_right_eq_some] at h
    obtain ⟨hpushed, hstop, hqueue⟩ := hwake h.2
    rw [hpushed, hstop, hqueue]
    exact ⟨rfl, rfl, fun _ hmem => hmem⟩
  | enter w =>
    simp only [WaitQueue.step, Option.ite_none_right_eq_some, Option.some.injEq] at h
    rw [← h.2, WaitQueue.enter]
    cases hq : q.queue with
    | cons task rest => exact ⟨rfl, rfl, fun _ hmem => List.mem_cons_of_mem _ hmem⟩
    | nil =>
      simp only
      split_ifs
      · exact ⟨rfl, rfl, fun _ hmem => by rw [← hq]; exact hmem⟩
      · exact ⟨rfl, rfl, fun _ hmem => by rw [← hq]; exact hmem⟩
  | spurious w =>
    simp only [WaitQueue.step, Option.ite_none_right_eq_some, Option.some.injEq] at h
    rw [← h.2]
    exact ⟨rfl, rfl, fun _ hmem => hmem⟩
  | finish w =>
    obtain ⟨task, -, rfl⟩ := Option.map_eq_some_iff.mp h
    exact ⟨rfl, rfl, fun _ hmem => hmem⟩
  | push xs => cases he
  | pushNotify x target => cases he
  | setStop => cases he
  | notifyAll => cases he

lemma Sound.loop {b : Reactor.Action} (h : x.Sound) (hs : x.server.1.view.Sound)
    (hstep : x.step D (.loop b) = some y) : y.Sound := by
  simp only [step, Option.ite_none_right_eq_some] at hstep
  obtain ⟨⟨-, hbegun⟩, hstep⟩ := hstep
  obtain ⟨server, hserver, rfl⟩ := Option.map_eq_some_iff.mp hstep
  obtain ⟨hrecord, hnote⟩ := noted_cases hserver
  obtain ⟨hdispatches, htasks⟩ := tasks_change (Reactor.change_step hs hrecord hnote)
  refine ⟨h.pool, h.workers, h.stop, ?_, fun task hmem => ?_⟩
  · rw [hdispatches, ← h.submitted, List.append_assoc]
  · rw [← List.append_assoc] at hmem
    rcases List.mem_append.mp hmem with hold | hnew
    · have hmem := h.waiting task hold
      rcases htasks with hpre | ⟨i, responseStr, rfl, herase⟩
      · exact hpre.subset hmem
      · rw [herase]
        refine mem_eraseIdx_of_ne hmem (fun hi => ?_)
        exact of_decide_eq_true hbegun task hi hold
    · exact List.mem_of_mem_drop hnew

lemma Sound.submitTask (h : x.Sound) (hstep : x.step D .submitTask = some y) : y.Sound := by
  rw [step] at hstep
  cases hrest : x.unsubmitted with
  | nil => simp [hrest] at hstep
  | cons task rest =>
    simp only [hrest, Option.ite_none_right_eq_some] at hstep
    obtain ⟨-, hstep⟩ := hstep
    obtain ⟨pool, hpool, rfl⟩ := Option.map_eq_some_iff.mp hstep
    have hpoolSound := h.pool.step hpool
    cases Option.some.inj hpool
    have hsubmitted := h.submitted
    rw [hrest, List.append_cons] at hsubmitted
    refine ⟨hpoolSound, h.workers, h.stop, hsubmitted, fun t ht => h.waiting t ?_⟩
    rw [hrest, List.append_cons]
    exact ht

lemma Sound.workers_step {e : WaitQueue.Event Task} (h : x.Sound)
    (hstep : x.step D (.pool e) = some y) :
    y.Sound := by
  simp only [step, Option.ite_none_right_eq_some] at hstep
  obtain ⟨he, hstep⟩ := hstep
  obtain ⟨pool, hpool, rfl⟩ := Option.map_eq_some_iff.mp hstep
  obtain ⟨hpushed, hstop, hqueue⟩ := pool_step he hpool
  refine ⟨h.pool.step hpool, (WaitQueue.step_grows hpool).1.trans h.workers, hstop.trans h.stop,
    (congrArg (· ++ x.unsubmitted) hpushed).trans h.submitted, fun task hmem => h.waiting task ?_⟩
  rcases List.mem_append.mp hmem with hmem | hmem
  · exact List.mem_append_left _ (hqueue task hmem)
  · exact List.mem_append_right _ hmem

end steps

section run

variable {acts : List Act}

lemma server_run (h : Run (step D) Any start acts x) :
    ∃ as, Run (Reactor.record D) Any (Reactor.listening, {}) as x.server := by
  refine h.project Staffed.server (fun u act v _ hstep => ?_)
  cases act with
  | loop a =>
    simp only [step, Option.ite_none_right_eq_some] at hstep
    obtain ⟨server, hserver, rfl⟩ := Option.map_eq_some_iff.mp hstep.2
    exact .inr ⟨a, trivial, hserver⟩
  | submitTask =>
    rw [step] at hstep
    cases hrest : u.unsubmitted with
    | nil => simp [hrest] at hstep
    | cons task rest =>
      simp only [hrest, Option.ite_none_right_eq_some] at hstep
      obtain ⟨pool, -, rfl⟩ := Option.map_eq_some_iff.mp hstep.2
      exact .inl rfl
  | pool e =>
    simp only [step, Option.ite_none_right_eq_some] at hstep
    obtain ⟨pool, -, rfl⟩ := Option.map_eq_some_iff.mp hstep.2
    exact .inl rfl

lemma sound_run (h : Run (step D) Any start acts x) : x.Sound := by
  refine h.invariant_with (K := fun x => x.server.1.view.Sound) ?_ (fun _ u hr => ?_) ?_
  · exact ⟨WaitQueue.sound_idle kThreads, rfl, rfl, rfl, by simp [start, WaitQueue.idle]⟩
  · obtain ⟨as, hserver⟩ := server_run hr
    exact Reactor.sound_record hserver
  · intro u act v hs _ hinv _ hstep
    cases act with
    | loop a => exact hinv.loop hs hstep
    | submitTask => exact hinv.submitTask hstep
    | pool e => exact hinv.workers_step hstep

/-- Workers begin the tasks in the order in which the requests were dispatched, each once and
before it is answered, and no more than there are workers at a time. While one of them sleeps,
every task in the queue has a worker that is up, or a notification to come, of its own. -/
theorem tasks_in_order (D : Decoding) (h : Run (step D) Any start acts x) :
    x.pool.started.map Task.serial = List.range x.pool.started.length ∧
      (x.pool.finished ++ x.pool.tasks).Perm x.pool.started ∧ x.pool.tasks.length ≤ kThreads ∧
      x.pool.started ++ x.pool.queue ++ x.unsubmitted = x.server.2.dispatches.map Prod.snd ∧
      (∀ task ∈ x.pool.queue ++ x.unsubmitted, task ∈ x.server.1.tasks) ∧
      (x.pool.anyAsleep = true → x.pool.queue.length ≤ x.pool.owed + x.pool.readies) := by
  have hsound := sound_run h
  obtain ⟨as, hserver⟩ := server_run h
  have horder : x.pool.started ++ x.pool.queue ++ x.unsubmitted =
      x.server.2.dispatches.map Prod.snd :=
    (congrArg (· ++ x.unsubmitted) hsound.pool.order).trans hsound.submitted
  refine ⟨?_, hsound.pool.once, ?_, horder, hsound.waiting, hsound.pool.served⟩
  · have hserials : (x.pool.started ++ (x.pool.queue ++ x.unsubmitted)).map Task.serial =
        List.range x.server.1.dispatched := by
      rw [← List.append_assoc, horder, List.map_map]
      exact (Reactor.conserved_run hserver).dispatches
    rw [List.map_append] at hserials
    have hlen := congrArg List.length hserials
    simp only [List.length_append, List.length_map, List.length_range] at hlen
    have htake := congrArg (List.take x.pool.started.length) hserials
    rw [List.take_left' (by simp), List.take_range, Nat.min_eq_left (by omega)] at htake
    exact htake
  · rw [← hsound.workers]
    exact List.length_filterMap_le _ _

def sampleRequest (id : UInt8) : Bytes := [8, 0, 0, 0, 10, 1, 85, 18, 1, 76, 32, id]

def sampleActs : List Act :=
  (List.range kThreads).map (fun w => .pool (.enter w)) ++ Reactor.acceptRun.map .loop ++
    [.loop (.enter 2), .loop (.recvDone 1 (sampleRequest 1 ++ sampleRequest 2)), .loop .wake,
      .loop .handle,
      .submitTask, .pool (.notifyOne (some 2)), .pool (.enter 2),
      .loop (.workerDone 0 (some [8, 1])),
      .submitTask]

theorem tasks_in_order_sample : ∃ x, exec (step Reactor.sampleDecoding) start sampleActs = some x ∧
    x.pool.started.map Task.serial = List.range 1 ∧ x.pool.queue.length = 1 ∧
    x.pool.anyAsleep = true ∧
      1 ≤ x.pool.owed + x.pool.readies := by
  obtain ⟨x, hx, hd⟩ : ∃ x, exec (step Reactor.sampleDecoding) start sampleActs = some x ∧
      decide (x.pool.queue.length = 1 ∧ x.pool.anyAsleep = true ∧ x.pool.started.length = 1) =
        true :=
    exec_any (by decide)
  obtain ⟨hone, hasleep, hlen⟩ := of_decide_eq_true hd
  obtain ⟨hserials, -, -, -, -, hserved⟩ :=
    tasks_in_order Reactor.sampleDecoding (.of_exec hx (by decide))
  rw [hlen] at hserials
  exact ⟨x, hx, hserials, hone, hasleep, hone ▸ hserved hasleep⟩

end run

section progress

variable {acts : List Act} {σ : ℕ → Staffed} {α : ℕ → Act}

/-- Workers that are up come to the queue, `CallMethod` returns, and the loop goes on submitting
and notifying. -/
structure Fair (σ : ℕ → Staffed) (α : ℕ → Act) : Prop where
  enter : ∀ k (w : ℕ), ((σ k).pool.workers[w]?).any Phase.isReady = true →
      ∃ j ≥ k, α j = .pool (.enter w)
  finish : ∀ k (w : ℕ) task, (σ k).pool.workers[w]? = some (.running task) →
    ∃ j ≥ k, α j = .pool (.finish w)
  notify : ∀ k, 0 < (σ k).pool.owed → ∃ j ≥ k, ∃ target, α j = .pool (.notifyOne target)
  submit : ∀ k, (σ k).unsubmitted ≠ [] → ∃ j ≥ k, α j = .submitTask

def event (x : Staffed) : Act → WaitQueue.Event Task
  | .loop _ => .push []
  | .submitTask => .push (x.unsubmitted.take 1)
  | .pool e => e

lemma pool_step_event {act : Act} (h : step D x act = some y) :
    x.pool.step (event x act) = some y.pool := by
  cases act with
  | loop a =>
    simp only [step, Option.ite_none_right_eq_some] at h
    obtain ⟨server, -, rfl⟩ := Option.map_eq_some_iff.mp h.2
    simp [event, WaitQueue.step, WaitQueue.append]
  | submitTask =>
    rw [step] at h
    cases hrest : x.unsubmitted with
    | nil => simp [hrest] at h
    | cons task rest =>
      simp only [hrest, Option.ite_none_right_eq_some] at h
      obtain ⟨pool, hpool, rfl⟩ := Option.map_eq_some_iff.mp h.2
      rw [event, hrest]
      exact hpool
  | pool e =>
    simp only [step, Option.ite_none_right_eq_some] at h
    obtain ⟨pool, hpool, rfl⟩ := Option.map_eq_some_iff.mp h.2
    exact hpool

lemma pool_path (h : Path (step D) Any σ α) :
    Path WaitQueue.step Any (fun k => (σ k).pool) (fun k => event (σ k) (α k)) where
  allowed _ := trivial
  next k := pool_step_event (h.next k)

lemma submit_pushes (h : step D x .submitTask = some y) :
    y.pool.pushed.length = x.pool.pushed.length + 1 := by
  rw [step] at h
  cases hrest : x.unsubmitted with
  | nil => simp [hrest] at h
  | cons task rest =>
    simp only [hrest, Option.ite_none_right_eq_some] at h
    obtain ⟨pool, hpool, rfl⟩ := Option.map_eq_some_iff.mp h.2
    cases Option.some.inj hpool
    simp [WaitQueue.append]

lemma pushed_grows (h : Path (step D) Any σ α) {j k : ℕ} (hle : j ≤ k) :
    (σ j).pool.pushed.length ≤ (σ k).pool.pushed.length :=
  (WaitQueue.Path.grows (pool_path h) hle).2.2.length_le

def issued (x : Staffed) : List Task := x.pool.pushed ++ x.unsubmitted

lemma step_issued {act : Act} (h : step D x act = some y) : x.issued.length ≤ y.issued.length := by
  cases act with
  | loop a =>
    simp only [step, Option.ite_none_right_eq_some] at h
    obtain ⟨server, -, rfl⟩ := Option.map_eq_some_iff.mp h.2
    simp only [issued, List.length_append]
    omega
  | submitTask =>
    have hone := submit_pushes h
    rw [step] at h
    cases hrest : x.unsubmitted with
    | nil => simp [hrest] at h
    | cons task rest =>
      simp only [hrest, Option.ite_none_right_eq_some] at h
      obtain ⟨pool, -, rfl⟩ := Option.map_eq_some_iff.mp h.2
      simp only [issued, hrest, List.length_append, List.length_cons] at hone ⊢
      omega
  | pool e =>
    simp only [step, Option.ite_none_right_eq_some] at h
    obtain ⟨he, h⟩ := h
    obtain ⟨pool, hpool, rfl⟩ := Option.map_eq_some_iff.mp h
    simp only [issued, (pool_step he hpool).1, le_refl]

lemma issued_grows (h : Path (step D) Any σ α) {j k : ℕ} (hle : j ≤ k) :
    (σ j).issued.length ≤ (σ k).issued.length := by
  induction k, hle using Nat.le_induction with
  | base => exact le_rfl
  | succ k _ ih => exact ih.trans (step_issued (h.next k))

lemma tasks_pushed (h : Path (step D) Any σ α) (hfair : Fair σ α) {k i : ℕ}
    (hi : i < (σ k).issued.length) :
    ∃ j ≥ k, i < (σ j).pool.pushed.length := by
  have hmore : ∀ n, ∃ j ≥ k, i < (σ j).pool.pushed.length ∨ n ≤ (σ j).pool.pushed.length := by
    intro n
    induction n with
    | zero => exact ⟨k, le_rfl, .inr (Nat.zero_le _)⟩
    | succ n ih =>
      obtain ⟨j, hj, hdone | hn⟩ := ih
      · exact ⟨j, hj, .inl hdone⟩
      · by_cases hpushed : i < (σ j).pool.pushed.length
        · exact ⟨j, hj, .inl hpushed⟩
        · have hissued := hi.trans_le (issued_grows h hj)
          have hne : (σ j).unsubmitted ≠ [] := by
            intro hnil
            rw [issued, hnil, List.append_nil] at hissued
            exact hpushed hissued
          obtain ⟨j', hj', hact⟩ := hfair.submit j hne
          have hnext := h.next j'
          rw [hact] at hnext
          have hone := submit_pushes hnext
          have hgrown := pushed_grows h hj'
          exact ⟨j' + 1, by omega, .inr (by omega)⟩
  obtain ⟨j, hj, hdone | hn⟩ := hmore (i + 1)
  · exact ⟨j, hj, hdone⟩
  · exact ⟨j, hj, hn⟩

/-- No request waits forever for a worker. -/
theorem tasks_begin (D : Decoding) (hrun : Run (step D) Any start acts (σ 0))
    (hpath : Path (step D) Any σ α)
    (hfair : Fair σ α) {k i : ℕ} (hi : i < (σ k).server.1.dispatched) :
    ∃ j ≥ k, i < (σ j).pool.started.length := by
  have hreach : ∀ j, ∃ acts, Run (step D) Any start acts (σ j) :=
    fun j => ⟨_, hrun.append (hpath.run j)⟩
  have hsound : ∀ j, (σ j).Sound := fun j => sound_run (hreach j).choose_spec
  have hissued : i < (σ k).issued.length := by
    obtain ⟨acts, hr⟩ := hreach k
    obtain ⟨as, hserver⟩ := server_run hr
    have hserials := congrArg List.length (Reactor.conserved_run hserver).dispatches
    rw [List.length_map, List.length_range] at hserials
    rwa [issued, (hsound k).submitted, List.length_map, hserials]
  obtain ⟨j, hj, hpushed⟩ := tasks_pushed hpath hfair hissued
  have hworkers : (σ 0).pool.workers ≠ [] := by
    intro hnil
    have hworkers := (hsound 0).workers
    rw [hnil] at hworkers
    cases hworkers
  have hfairPool : WaitQueue.Fair (fun k => (σ k).pool) (fun k => event (σ k) (α k)) := by
    refine ⟨?_, ?_, ?_⟩
    · intro j w hready
      obtain ⟨j', hj', heq⟩ := hfair.enter j w hready
      exact ⟨j', hj', by rw [heq]; rfl⟩
    · intro j w task hrunning
      obtain ⟨j', hj', heq⟩ := hfair.finish j w task hrunning
      exact ⟨j', hj', by rw [heq]; rfl⟩
    · intro j howed
      obtain ⟨j', hj', target, heq⟩ := hfair.notify j howed
      exact ⟨j', hj', target, by rw [heq]; rfl⟩
  obtain ⟨j', hj', hstarted⟩ :=
    WaitQueue.Path.taken (pool_path hpath) (hsound 0).pool hfairPool hworkers
    (fun j => (hsound j).stop) hpushed
  exact ⟨j', hj.trans hj', hstarted⟩

section sample

def sampleTask (id : UInt64) (serial : ℕ) : Task := ⟨5, 1, ⟨[85], [76], id, []⟩, serial⟩

def first : Task := sampleTask 1 0
def second : Task := sampleTask 2 1

def sampleAct (k : ℕ) : Act :=
  [.submitTask, .pool (.notifyOne (some 2)), .submitTask, .pool (.notifyOne (some 3)),
    .pool (.enter 2),
    .pool (.enter 3), .pool (.finish 2), .pool (.finish 3), .pool (.enter 2),
    .pool (.enter 3)].getD k
    (.pool (if k % 2 = 0 then .spurious 2 else .enter 2))

def sampleWorkers (k : ℕ) : List (Phase Task) :=
  [.asleep, .asleep,
    [.asleep, .asleep, .ready, .ready, .ready, .running first, .running first, .ready, .ready,
      .asleep].getD k
      (if k % 2 = 0 then .asleep else .ready),
    [.asleep, .asleep, .asleep, .asleep, .ready, .ready, .running second, .running second, .ready,
      .ready].getD
      k .asleep]

def samplePool (k : ℕ) : WaitQueue Task where
  queue := [[], [first], [first], [first, second], [first, second], [second]].getD k []
  workers := sampleWorkers k
  owed := if k = 1 ∨ k = 3 then 1 else 0
  pushed := [[], [first], [first]].getD k [first, second]
  started := [[], [], [], [], [], [first]].getD k [first, second]
  finished := [[], [], [], [], [], [], [], [first]].getD k [first, second]

def sampleRest (k : ℕ) : List Task := [[first, second], [second], [second]].getD k []

def sampleState (server : Reactor × Journal) (k : ℕ) : Staffed :=
  ⟨server, sampleRest k, samplePool k⟩

variable {server : Reactor × Journal}

lemma sample_late (n : ℕ) (h : 10 ≤ n) : sampleState server n =
    ⟨server, [],
      { workers := sampleWorkers n, pushed := [first, second], started := [first, second],
                   finished := [first, second] }⟩ := by
  obtain ⟨k, rfl⟩ := Nat.exists_eq_add_of_le' h
  simp [sampleState, sampleRest, samplePool]

lemma sample_next (D : Decoding) (k : ℕ) :
    step D (sampleState server k) (sampleAct k) = some (sampleState server (k + 1)) := by
  rcases Nat.lt_or_ge k 10 with hlt | hge
  · interval_cases k <;> rfl
  · obtain ⟨n, rfl⟩ := Nat.exists_eq_add_of_le' hge
    rw [sample_late _ hge, sample_late _ (hge.trans (Nat.le_succ _))]
    rcases Nat.mod_two_eq_zero_or_one n with hn | hn
    · have hact : sampleAct (n + 10) = .pool (.spurious 2) := by simp [sampleAct, Nat.add_mod, hn]
      have hworkers : sampleWorkers (n + 10) = [.asleep, .asleep, .asleep, .asleep] := by
        simp [sampleWorkers, Nat.add_mod, hn]
      have hworkers' : sampleWorkers (n + 10 + 1) = [.asleep, .asleep, .ready, .asleep] := by
        simp [sampleWorkers, Nat.add_mod, hn]
      rw [hact, hworkers, hworkers']
      rfl
    · have hact : sampleAct (n + 10) = .pool (.enter 2) := by simp [sampleAct, Nat.add_mod, hn]
      have hworkers : sampleWorkers (n + 10) = [.asleep, .asleep, .ready, .asleep] := by
        simp [sampleWorkers, Nat.add_mod, hn]
      have hworkers' : sampleWorkers (n + 10 + 1) = [.asleep, .asleep, .asleep, .asleep] := by
        simp [sampleWorkers, Nat.add_mod, hn]
      rw [hact, hworkers, hworkers']
      rfl

lemma sample_quiet {n w : ℕ} {phase : Phase Task} (h : 10 ≤ n)
    (hget : (sampleWorkers n)[w]? = some phase) :
    phase = .asleep ∨ phase = .ready ∧ w = 2 := by
  obtain ⟨k, rfl⟩ := Nat.exists_eq_add_of_le' h
  rcases w with _ | _ | _ | _ | w
  · exact .inl (Option.some.inj hget).symm
  · exact .inl (Option.some.inj hget).symm
  · have hphase : (if (k + 10) % 2 = 0 then Phase.asleep else Phase.ready) = phase :=
      Option.some.inj hget
    split_ifs at hphase
    · exact .inl hphase.symm
    · exact .inr ⟨hphase.symm, rfl⟩
  · exact .inl (Option.some.inj hget).symm
  · cases hget

lemma sample_fair : Fair (sampleState server) sampleAct where
  enter k w h := by
    have hearly : ∀ k < 10, ∀ w < 4, ((sampleWorkers k)[w]?).any Phase.isReady = true → w = 2 ∨
        w = 3 := by decide
    obtain ⟨phase, hget, hready⟩ := WaitQueue.get_of_any h
    have hodd : ∃ j ≥ k, sampleAct j = .pool (.enter 2) :=
      ⟨2 * k + 11, by omega, by simp [sampleAct, Nat.add_mod]⟩
    rcases Nat.lt_or_ge k 10 with hlt | hge
    · have hw : w < 4 := (List.getElem?_eq_some_iff.mp hget).1
      rcases hearly k hlt w hw h with rfl | rfl
      · exact hodd
      · exact ⟨9, by omega, rfl⟩
    · rcases sample_quiet hge hget with rfl | ⟨-, rfl⟩
      · cases hready
      · exact hodd
  finish k w task h := by
    have hearly : ∀ k < 10, ∀ w < 4, (((sampleWorkers k)[w]?).bind Phase.task).isSome = true →
        ∃ j < 10, k ≤ j ∧ sampleAct j = .pool (.finish w) := by decide
    rcases Nat.lt_or_ge k 10 with hlt | hge
    · have hw : w < 4 := (List.getElem?_eq_some_iff.mp h).1
      have htask : (((sampleWorkers k)[w]?).bind Phase.task).isSome = true := by
        rw [show (sampleWorkers k)[w]? = some (.running task) from h]
        rfl
      obtain ⟨j, -, hj, hact⟩ := hearly k hlt w hw htask
      exact ⟨j, hj, hact⟩
    · rcases sample_quiet hge h with hphase | ⟨hphase, -⟩
      · cases hphase
      · cases hphase
  notify k h := by
    have hk : k = 1 ∨ k = 3 := by
      by_contra hne
      simp [sampleState, samplePool, hne] at h
    rcases hk with rfl | rfl
    · exact ⟨1, le_rfl, some 2, rfl⟩
    · exact ⟨3, le_rfl, some 3, rfl⟩
  submit k h := by
    rcases k with _ | _ | _ | k
    · exact ⟨0, le_rfl, rfl⟩
    · exact ⟨2, by omega, rfl⟩
    · exact ⟨2, le_rfl, rfl⟩
    · exact absurd rfl h

theorem tasks_begin_sample :
    ∃ server,
      exec (step Reactor.sampleDecoding) start (sampleActs.take 13) = some (sampleState server 0) ∧
      ∃ j : ℕ, 1 < (samplePool j).started.length := by
  obtain ⟨⟨server, rest, pool⟩, hx, hd⟩ :
      ∃ x, exec (step Reactor.sampleDecoding) start (sampleActs.take 13) = some x ∧
        decide (x.unsubmitted = sampleRest 0 ∧ x.pool = samplePool 0 ∧ x.server.1.dispatched = 2) =
          true :=
    exec_any (by decide)
  obtain ⟨rfl, rfl, htwo⟩ := of_decide_eq_true hd
  have hdispatched : 1 < server.1.dispatched := htwo ▸ Nat.one_lt_two
  have hpath : Path (step Reactor.sampleDecoding) Any (sampleState server) sampleAct :=
    ⟨fun _ => trivial, sample_next Reactor.sampleDecoding⟩
  obtain ⟨j, -, hj⟩ :=
    tasks_begin Reactor.sampleDecoding (.of_exec hx (by decide)) hpath sample_fair
    (k := 0) (i := 1) hdispatched
  exact ⟨server, hx, j, hj⟩

end sample

end progress

end Staffed

end KimRpc.Server
