import KimRpc.Library.Runs

/-! Queues between threads, with a mutex and a condition variable. Workers take elements from
the front and sleep while there are none; who adds an element wakes one of them, within the
critical section or after it. A critical section is one step. -/

namespace KimRpc.Library

open Runs

inductive Phase (α : Type*) where
  | ready
  | asleep
  | running (x : α)
  | exited
  deriving DecidableEq

namespace Phase

variable {α : Type*}

def isReady : Phase α → Bool
  | ready => true
  | _ => false

def isAsleep : Phase α → Bool
  | asleep => true
  | _ => false

def task : Phase α → Option α
  | running x => some x
  | _ => none

end Phase

/-- `owed` counts calls of `notify_one` that are still to come, and `owedAll` says so of
`notify_all`. The last three fields record what happened. -/
structure WaitQueue (α : Type*) where
  queue : List α := []
  workers : List (Phase α)
  owed : ℕ := 0
  stop : Bool := false
  owedAll : Bool := false
  pushed : List α := []
  started : List α := []
  finished : List α := []
  deriving DecidableEq

namespace WaitQueue

variable {α : Type*}

/-- A notification wakes a worker that sleeps, or nobody when none does; a worker may also
wake up by itself. -/
inductive Event (α : Type*) where
  | push (xs : List α)
  | pushNotify (x : α) (w : Option ℕ)
  | notifyOne (w : Option ℕ)
  | enter (w : ℕ)
  | spurious (w : ℕ)
  | finish (w : ℕ)
  | setStop
  | notifyAll
  deriving DecidableEq

variable (q : WaitQueue α)

def anyAsleep : Bool := q.workers.any Phase.isAsleep

def setWorker (w : ℕ) (phase : Phase α) : WaitQueue α := { q with workers := q.workers.set w phase }

def wake (w : Option ℕ) : Option (WaitQueue α) :=
  match w with
  | none => if q.anyAsleep then none else some q
  | some w => if (q.workers[w]?).any Phase.isAsleep then some (q.setWorker w .ready) else none

def append (xs : List α) : WaitQueue α :=
  { q with queue := q.queue ++ xs, pushed := q.pushed ++ xs }

def enter (w : ℕ) : WaitQueue α :=
  match q.queue with
  | x :: rest => { q.setWorker w (.running x) with queue := rest, started := q.started ++ [x] }
  | [] => if q.stop then q.setWorker w .exited else q.setWorker w .asleep

def finish (w : ℕ) (x : α) : WaitQueue α :=
  { q.setWorker w .ready with finished := q.finished ++ [x] }

def step (q : WaitQueue α) : Event α → Option (WaitQueue α)
  | .push xs => some { q.append xs with owed := q.owed + xs.length }
  | .pushNotify x w => (q.append [x]).wake w
  | .notifyOne w =>
    if 0 < q.owed then ({ q with owed := q.owed - 1 } : WaitQueue α).wake w else none
  | .enter w => if (q.workers[w]?).any Phase.isReady then some (q.enter w) else none
  | .spurious w => if (q.workers[w]?).any Phase.isAsleep then some (q.setWorker w .ready) else none
  | .finish w => ((q.workers[w]?).bind Phase.task).map (q.finish w)
  | .setStop => some { q with stop := true, owedAll := true }
  | .notifyAll =>
    if q.owedAll then
      some { q with
          owedAll := false, workers := q.workers.map (fun p => if p.isAsleep then .ready else p) }
    else none

def idle (n : ℕ) : WaitQueue α := { workers := List.replicate n .ready }

def readies : ℕ := q.workers.countP Phase.isReady

def tasks : List α := q.workers.filterMap Phase.task

/-- Elements are taken in the order in which they were added, each by one worker. While a
worker sleeps, every element in the queue but `n` has a worker that is up, or a notification,
of its own. -/
structure SoundBy (n : ℕ) : Prop where
  order : q.started ++ q.queue = q.pushed
  once : (q.finished ++ q.tasks).Perm q.started
  served : q.anyAsleep = true → q.queue.length ≤ q.owed + q.readies + n
  stopped : q.stop = true → q.anyAsleep = true → q.owedAll = true
  left : .exited ∈ q.workers → q.stop = true

abbrev Sound : Prop := q.SoundBy 0

variable {q} {t : WaitQueue α} {w n : ℕ} {x : α} {phase phase' : Phase α}

section workers

lemma anyAsleep_set (hphase : phase'.isAsleep = false)
    (h : (q.setWorker w phase').anyAsleep = true) : q.anyAsleep = true := by
  obtain ⟨p, hp, hpa⟩ := List.any_eq_true.mp h
  rcases List.mem_or_eq_of_mem_set hp with hold | rfl
  · exact List.any_eq_true.mpr ⟨p, hold, hpa⟩
  · rw [hphase] at hpa
    cases hpa

lemma readies_set (phase' : Phase α) (h : q.workers[w]? = some phase) :
    (q.setWorker w phase').readies + phase.isReady.toNat = q.readies + phase'.isReady.toNat := by
  obtain ⟨hlt, hget⟩ := List.getElem?_eq_some_iff.mp h
  have hle : phase.isReady.toNat ≤ q.workers.countP Phase.isReady := by
    cases hr : phase.isReady with
    | false => exact Nat.zero_le _
    | true => exact List.countP_pos_iff.mpr ⟨phase, List.mem_of_getElem? h, hr⟩
  rw [readies, readies, setWorker, List.countP_set hlt, hget]
  cases hp : phase.isReady <;> cases hp' : phase'.isReady <;> simp_all

lemma tasks_set (phase' : Phase α) (h : q.workers[w]? = some phase) :
    (phase.task.toList ++ (q.setWorker w phase').tasks).Perm (phase'.task.toList ++ q.tasks) := by
  obtain ⟨hlt, hget⟩ := List.getElem?_eq_some_iff.mp h
  have hsplit : q.workers = q.workers.take w ++ phase :: q.workers.drop (w + 1) := by
    rw [← hget, List.getElem_cons_drop, List.take_append_drop]
  have hset : q.workers.set w phase' = q.workers.take w ++ phase' :: q.workers.drop (w + 1) := by
    rw [List.set_eq_take_append_cons_drop, if_pos hlt]
  have hcons : ∀ (p : Phase α) (l : List (Phase α)), (p :: l).filterMap Phase.task =
      p.task.toList ++ l.filterMap Phase.task := by
    intro p l
    rw [List.filterMap_cons]
    cases p.task <;> rfl
  rw [tasks, tasks, setWorker, hset]
  conv_rhs => rw [hsplit]
  simp only [List.filterMap_append, hcons]
  refine Multiset.coe_eq_coe.mp ?_
  simp only [← Multiset.coe_add]
  abel

lemma exited_set (hphase : phase' ≠ .exited) (h : .exited ∈ (q.setWorker w phase').workers) :
    .exited ∈ q.workers := by
  rcases List.mem_or_eq_of_mem_set h with hold | heq
  · exact hold
  · exact absurd heq.symm hphase

lemma get_of_any {p : Phase α → Bool} (h : (q.workers[w]?).any p = true) :
    ∃ phase, q.workers[w]? = some phase ∧ p phase = true := by
  cases hw : q.workers[w]? with
  | none => simp [hw] at h
  | some phase => exact ⟨phase, rfl, by simpa [hw] using h⟩

lemma task_eq_none (h : phase.isReady = true ∨ phase.isAsleep = true) : phase.task = none := by
  cases phase <;> simp_all [Phase.isReady, Phase.isAsleep, Phase.task]

end workers

section steps

lemma SoundBy.more (h : q.SoundBy n) : q.SoundBy (n + 1) :=
  ⟨h.order, h.once, fun ha => (h.served ha).trans (by omega), h.stopped, h.left⟩

lemma SoundBy.woken (h : q.SoundBy (n + 1)) (hw : (q.workers[w]?).any Phase.isAsleep = true) :
    (q.setWorker w .ready).SoundBy n := by
  obtain ⟨phase, hget, hphase⟩ := get_of_any hw
  have hreadies := readies_set .ready hget
  have htasks := tasks_set .ready hget
  rw [task_eq_none (.inr hphase)] at htasks
  have hup : phase.isReady = false := by cases phase <;> simp_all [Phase.isReady, Phase.isAsleep]
  rw [hup] at hreadies
  refine ⟨h.order, (htasks.append_left _).trans h.once, fun ha => ?_,
    fun hs ha => h.stopped hs (anyAsleep_set rfl ha),
    fun hl => h.left (exited_set (by simp) hl)⟩
  have hserved := h.served (anyAsleep_set rfl ha)
  simp only [Phase.isReady, Bool.toNat_false, Bool.toNat_true, Nat.add_zero] at hreadies
  show q.queue.length ≤ q.owed + _ + n
  omega

lemma SoundBy.wake {target : Option ℕ} (h : q.SoundBy (n + 1)) (hwake : q.wake target = some t) :
    t.SoundBy n := by
  cases target with
  | none =>
    simp only [WaitQueue.wake, Option.ite_none_left_eq_some, Option.some.injEq] at hwake
    obtain ⟨hnone, rfl⟩ := hwake
    exact ⟨h.order, h.once, fun ha => absurd ha hnone, h.stopped, h.left⟩
  | some w =>
    simp only [WaitQueue.wake, Option.ite_none_right_eq_some, Option.some.injEq] at hwake
    obtain ⟨hw, rfl⟩ := hwake
    exact h.woken hw

lemma Sound.append (h : q.Sound) (xs : List α) : (q.append xs).SoundBy xs.length := by
  refine ⟨?_, h.once, fun ha => ?_, h.stopped, h.left⟩
  · rw [WaitQueue.append, ← List.append_assoc, h.order]
  · have hserved := h.served ha
    simp only [WaitQueue.append, List.length_append]
    show _ ≤ q.owed + q.readies + xs.length
    omega

lemma Sound.enter (h : q.Sound) (hw : (q.workers[w]?).any Phase.isReady = true) :
    (q.enter w).Sound := by
  obtain ⟨phase, hget, hphase⟩ := get_of_any hw
  have hnone := task_eq_none (.inl hphase)
  unfold WaitQueue.enter
  cases hq : q.queue with
  | cons x rest =>
    have hreadies := readies_set (.running x) hget
    have htasks := tasks_set (.running x) hget
    rw [hnone] at htasks
    rw [hphase] at hreadies
    refine ⟨?_, ?_, fun ha => ?_, fun hs ha => h.stopped hs (anyAsleep_set rfl ha),
      fun hl => h.left (exited_set (by simp) hl)⟩
    · have horder := h.order
      rw [hq] at horder
      show (q.started ++ [x]) ++ rest = q.pushed
      rw [List.append_assoc]
      exact horder
    · refine ((htasks.append_left q.finished).trans ?_).trans (h.once.append_right [x])
      rw [List.append_assoc]
      exact List.perm_append_comm.append_left _
    · have hserved := h.served (anyAsleep_set rfl ha)
      rw [hq, List.length_cons] at hserved
      simp only [Phase.isReady, Bool.toNat_false, Bool.toNat_true, Nat.add_zero] at hreadies
      show rest.length ≤ q.owed + (q.setWorker w (.running x)).readies + 0
      omega
  | nil =>
    have hlast : ∀ phase' : Phase α, phase'.task = none → (phase' = .exited → q.stop = true) →
        (phase'.isAsleep = true → q.stop = false) → (q.setWorker w phase').Sound := by
      intro phase' htask hexit hsleep
      have htasks := tasks_set phase' hget
      rw [hnone, htask] at htasks
      refine ⟨h.order, (htasks.append_left _).trans h.once, fun _ => ?_, fun hs ha => ?_,
        fun hl => ?_⟩
      · rw [setWorker, hq]
        exact Nat.zero_le _
      · cases hasleep : phase'.isAsleep with
        | true => exact absurd (hsleep hasleep) (by rw [show q.stop = true from hs]; simp)
        | false => exact h.stopped hs (anyAsleep_set hasleep ha)
      · by_cases hphase' : phase' = .exited
        · exact hexit hphase'
        · exact h.left (exited_set hphase' hl)
    simp only
    split_ifs with hstop
    · exact hlast .exited rfl (fun _ => hstop) (by simp [Phase.isAsleep])
    · exact hlast .asleep rfl (by simp) (fun _ => by simpa using hstop)

lemma Sound.finish (h : q.Sound) (hget : q.workers[w]? = some (.running x)) :
    (q.finish w x).Sound := by
  have hreadies := readies_set .ready hget
  have htasks := tasks_set .ready hget
  refine ⟨h.order, ?_, fun ha => ?_, fun hs ha => h.stopped hs (anyAsleep_set rfl ha),
    fun hl => h.left (exited_set (by simp) hl)⟩
  · refine List.Perm.trans ?_ h.once
    simp only [WaitQueue.finish, List.append_assoc]
    exact htasks.append_left _
  · have hserved := h.served (anyAsleep_set rfl ha)
    simp only [Phase.isReady, Bool.toNat_false, Bool.toNat_true, Nat.add_zero] at hreadies
    show q.queue.length ≤ q.owed + (q.setWorker w .ready).readies + 0
    omega

lemma task_eq_some {p : Option (Phase α)} (h : p.bind Phase.task = some x) :
    p = some (.running x) := by
  cases p with
  | none => cases h
  | some phase => cases phase <;> simp_all [Phase.task]

lemma Sound.notifyAll (h : q.Sound) :
    ({ q with
      owedAll := false, workers := q.workers.map (fun p => if p.isAsleep then .ready else p) } :
      WaitQueue α).Sound := by
  have hnone : ∀ ws : List (Phase α), (ws.map (fun p => if p.isAsleep then Phase.ready else p)).any
      Phase.isAsleep = false := by
    intro ws
    rw [List.any_eq_false]
    intro p hp
    obtain ⟨p', -, rfl⟩ := List.mem_map.mp hp
    split_ifs with hasleep
    · simp [Phase.isAsleep]
    · exact hasleep
  have htasks : (q.workers.map (fun p => if p.isAsleep then Phase.ready else p)).filterMap
      Phase.task = q.tasks := by
    rw [tasks, List.filterMap_map]
    refine List.filterMap_congr (fun p _ => ?_)
    simp only [Function.comp_apply]
    split_ifs with hasleep
    · exact (task_eq_none (.inr hasleep)).symm
    · rfl
  refine ⟨h.order, ?_, fun ha => ?_, fun _ ha => ?_, fun hl => ?_⟩
  · rw [tasks, htasks]
    exact h.once
  · exact absurd ha (by rw [anyAsleep, hnone]; simp)
  · exact absurd ha (by rw [anyAsleep, hnone]; simp)
  · obtain ⟨p, hp, heq⟩ := List.mem_map.mp hl
    split_ifs at heq with hasleep
    exact h.left (heq ▸ hp)

lemma Sound.step {e : Event α} (h : q.Sound) (hstep : q.step e = some t) : t.Sound := by
  cases e with
  | push xs =>
    cases Option.some.inj hstep
    have happend := h.append xs
    refine ⟨happend.order, happend.once, fun ha => ?_, happend.stopped, happend.left⟩
    have hserved := happend.served ha
    show _ ≤ q.owed + xs.length + q.readies + 0
    have hsame : (q.append xs).owed + (q.append xs).readies + xs.length =
        q.owed + q.readies + xs.length := rfl
    rw [hsame] at hserved
    exact hserved.trans (by omega)
  | pushNotify x target => exact (h.append [x]).wake hstep
  | notifyOne target =>
    simp only [WaitQueue.step, Option.ite_none_right_eq_some] at hstep
    obtain ⟨hpos, hwake⟩ := hstep
    refine SoundBy.wake (q := { q with owed := q.owed - 1 })
      ⟨h.order, h.once, fun ha => ?_, h.stopped, h.left⟩ hwake
    have hserved := h.served ha
    show q.queue.length ≤ q.owed - 1 + q.readies + (0 + 1)
    omega
  | enter w =>
    simp only [WaitQueue.step, Option.ite_none_right_eq_some, Option.some.injEq] at hstep
    obtain ⟨hw, rfl⟩ := hstep
    exact h.enter hw
  | spurious w =>
    simp only [WaitQueue.step, Option.ite_none_right_eq_some, Option.some.injEq] at hstep
    obtain ⟨hw, rfl⟩ := hstep
    exact h.more.woken hw
  | finish w =>
    obtain ⟨x, hx, rfl⟩ := Option.map_eq_some_iff.mp hstep
    exact h.finish (task_eq_some hx)
  | setStop =>
    cases Option.some.inj hstep
    exact ⟨h.order, h.once, h.served, fun _ _ => rfl, fun _ => rfl⟩
  | notifyAll =>
    simp only [WaitQueue.step, Option.ite_none_right_eq_some, Option.some.injEq] at hstep
    obtain ⟨-, rfl⟩ := hstep
    exact h.notifyAll

lemma sound_idle (k : ℕ) : (idle k : WaitQueue α).Sound := by
  have hnone : (idle k : WaitQueue α).anyAsleep = false := by
    rw [anyAsleep, List.any_eq_false]
    intro p hp
    rw [List.eq_of_mem_replicate hp]
    simp [Phase.isAsleep]
  refine ⟨rfl, ?_, fun ha => absurd ha (by rw [hnone]; simp), fun hs => absurd hs (by simp [idle]),
    fun hl => ?_⟩
  · have htasks : (idle k : WaitQueue α).tasks = [] := by
      rw [tasks, List.filterMap_eq_nil_iff]
      intro p hp
      rw [List.eq_of_mem_replicate hp]
      rfl
    rw [htasks]
    exact .nil
  · exact absurd (List.eq_of_mem_replicate hl) (by simp)

end steps

section progress

lemma step_grows {e : Event α} (h : q.step e = some t) :
    t.workers.length = q.workers.length ∧ q.started <+: t.started ∧ q.pushed <+: t.pushed := by
  have hwake : ∀ {u v : WaitQueue α} {target : Option ℕ}, u.wake target = some v →
      v.workers.length = u.workers.length ∧ v.started = u.started ∧ v.pushed = u.pushed := by
    intro u v target hv
    cases target with
    | none =>
      simp only [wake, Option.ite_none_left_eq_some, Option.some.injEq] at hv
      rw [hv.2]
      exact ⟨rfl, rfl, rfl⟩
    | some w =>
      simp only [wake, Option.ite_none_right_eq_some, Option.some.injEq] at hv
      rw [← hv.2]
      exact ⟨List.length_set, rfl, rfl⟩
  cases e with
  | push xs =>
    cases Option.some.inj h
    exact ⟨rfl, List.prefix_rfl, List.prefix_append _ _⟩
  | pushNotify x target =>
    obtain ⟨hlen, hstarted, hpushed⟩ := hwake h
    rw [hlen, hstarted, hpushed]
    exact ⟨rfl, List.prefix_rfl, List.prefix_append _ _⟩
  | notifyOne target =>
    simp only [step, Option.ite_none_right_eq_some] at h
    obtain ⟨hlen, hstarted, hpushed⟩ := hwake h.2
    rw [hlen, hstarted, hpushed]
    exact ⟨rfl, List.prefix_rfl, List.prefix_rfl⟩
  | enter w =>
    simp only [step, Option.ite_none_right_eq_some, Option.some.injEq] at h
    rw [← h.2, enter]
    split
    · exact ⟨List.length_set, List.prefix_append _ _, List.prefix_rfl⟩
    · split_ifs
      · exact ⟨List.length_set, List.prefix_rfl, List.prefix_rfl⟩
      · exact ⟨List.length_set, List.prefix_rfl, List.prefix_rfl⟩
  | spurious w =>
    simp only [step, Option.ite_none_right_eq_some, Option.some.injEq] at h
    rw [← h.2]
    exact ⟨List.length_set, List.prefix_rfl, List.prefix_rfl⟩
  | finish w =>
    obtain ⟨x, -, rfl⟩ := Option.map_eq_some_iff.mp h
    exact ⟨List.length_set, List.prefix_rfl, List.prefix_rfl⟩
  | setStop =>
    cases Option.some.inj h
    exact ⟨rfl, List.prefix_rfl, List.prefix_rfl⟩
  | notifyAll =>
    simp only [step, Option.ite_none_right_eq_some, Option.some.injEq] at h
    rw [← h.2]
    exact ⟨List.length_map _, List.prefix_rfl, List.prefix_rfl⟩

variable {σ : ℕ → WaitQueue α} {ok : WaitQueue α → Event α → Prop}

/-- Workers that are up come to the queue, elements do not take forever, and whoever owes a
notification gives it. -/
structure Fair (σ : ℕ → WaitQueue α) (events : ℕ → Event α) : Prop where
  enter : ∀ k (w : ℕ), ((σ k).workers[w]?).any Phase.isReady = true → ∃ j ≥ k, events j = .enter w
  finish : ∀ k (w : ℕ) x, (σ k).workers[w]? = some (.running x) → ∃ j ≥ k, events j = .finish w
  notify : ∀ k, 0 < (σ k).owed → ∃ j ≥ k, ∃ target, events j = .notifyOne target

variable {events : ℕ → Event α}

lemma Path.sound (h : Path step ok σ events) (h0 : (σ 0).Sound) (k : ℕ) : (σ k).Sound := by
  induction k with
  | zero => exact h0
  | succ k ih => exact ih.step (h.next k)

lemma Path.grows (h : Path step ok σ events) {j k : ℕ} (hle : j ≤ k) :
    (σ k).workers.length = (σ j).workers.length ∧
    (σ j).started <+: (σ k).started ∧ (σ j).pushed <+: (σ k).pushed := by
  induction k, hle using Nat.le_induction with
  | base => exact ⟨rfl, List.prefix_rfl, List.prefix_rfl⟩
  | succ k _ ih =>
    obtain ⟨hlen, hstarted, hpushed⟩ := step_grows (h.next k)
    exact ⟨hlen.trans ih.1, ih.2.1.trans hstarted, ih.2.2.trans hpushed⟩

lemma Path.takes (h : Path step ok σ events) (h0 : (σ 0).Sound) (hfair : Fair σ events)
    (hworkers : (σ 0).workers ≠ [])
    (hrunning : ∀ k, (σ k).stop = false) {k : ℕ} (hqueue : ∀ j ≥ k, (σ j).queue ≠ []) :
    ∃ j ≥ k, (σ j).started.length < (σ (j + 1)).started.length := by
  by_contra hnone
  -- nobody comes to the queue, or an element would be taken
  have hstay : ∀ j ≥ k, ∀ w, events j ≠ .enter w := by
    intro j hj w hevent
    apply hnone
    refine ⟨j, hj, ?_⟩
    have hstep := h.next j
    simp only [hevent, step, Option.ite_none_right_eq_some, Option.some.injEq] at hstep
    rw [← hstep.2, enter]
    cases hq : (σ j).queue with
    | nil => exact absurd hq (hqueue j hj)
    | cons x rest => simp
  have hup : ∀ j ≥ k, ∀ w : ℕ, ((σ j).workers[w]?).any Phase.isReady = false := by
    intro j hj w
    by_contra hready
    obtain ⟨j', hj', hevent⟩ := hfair.enter j w (by simpa using hready)
    exact hstay j' (hj.trans hj') w hevent
  have hset : ∀ (u : WaitQueue α) (w : ℕ) phase, u.workers[w]? = some phase →
      ((u.setWorker w .ready).workers[w]?).any Phase.isReady = true := by
    intro u w phase hget
    rw [setWorker, List.getElem?_set_self (List.getElem?_eq_some_iff.mp hget).1]
    rfl
  -- so all of them sleep
  have hall : ∀ j ≥ k, ∀ p ∈ (σ j).workers, p.isAsleep = true := by
    intro j hj p hp
    obtain ⟨w, hw⟩ := List.mem_iff_getElem?.mp hp
    cases p with
    | asleep => rfl
    | ready => exact absurd (hup j hj w) (by rw [hw]; simp [Phase.isReady])
    | exited => exact absurd ((Path.sound h h0 j).left hp) (by rw [hrunning j]; simp)
    | running x =>
      obtain ⟨j', hj', hevent⟩ := hfair.finish j w x hw
      have hstep := h.next j'
      simp only [hevent, step] at hstep
      obtain ⟨y, hy, hnext⟩ := Option.map_eq_some_iff.mp hstep
      have hready := hset (σ j') w _ (task_eq_some hy)
      have hlater := hup (j' + 1) (by omega) w
      rw [← hnext] at hlater
      exact absurd hready
        (by rw [show ((σ j').setWorker w .ready).workers = ((σ j').finish w y).workers from rfl,
          hlater]; simp)
  have hsome : ∀ j ≥ k, (σ j).anyAsleep = true := by
    intro j hj
    have hlen := (Path.grows h (Nat.zero_le j)).1
    have hne : (σ j).workers ≠ [] := by
      intro hnil
      rw [hnil, List.length_nil] at hlen
      exact hworkers (List.length_eq_zero_iff.mp hlen.symm)
    obtain ⟨p, hp⟩ := List.exists_mem_of_ne_nil _ hne
    exact List.any_eq_true.mpr ⟨p, hp, hall j hj p hp⟩
  have hreadies : (σ k).readies = 0 := by
    rw [readies, List.countP_eq_zero]
    intro p hp
    have hasleep := hall k le_rfl p hp
    cases p <;> simp_all [Phase.isAsleep, Phase.isReady]
  -- and one of them will be woken
  have hserved := (Path.sound h h0 k).served (hsome k le_rfl)
  have hpos := List.length_pos_iff.mpr (hqueue k le_rfl)
  obtain ⟨j, hj, target, hevent⟩ := hfair.notify k (by omega)
  have hstep := h.next j
  simp only [hevent, step, Option.ite_none_right_eq_some] at hstep
  obtain ⟨-, hwake⟩ := hstep
  cases target with
  | none =>
    simp only [wake, Option.ite_none_left_eq_some] at hwake
    exact hwake.1 (hsome j hj)
  | some w =>
    simp only [wake, Option.ite_none_right_eq_some, Option.some.injEq] at hwake
    obtain ⟨hany, hnext⟩ := hwake
    obtain ⟨phase, hget, -⟩ := get_of_any hany
    have hready := hset { σ j with owed := (σ j).owed - 1 } w _ hget
    rw [hnext, hup (j + 1) (by omega) w] at hready
    cases hready

lemma Path.taken (h : Path step ok σ events) (h0 : (σ 0).Sound) (hfair : Fair σ events)
    (hworkers : (σ 0).workers ≠ [])
    (hrunning : ∀ k, (σ k).stop = false) {k i : ℕ} (hi : i < (σ k).pushed.length) :
    ∃ j ≥ k, i < (σ j).started.length := by
  by_contra hnone
  have hle : ∀ j ≥ k, (σ j).started.length ≤ i := by
    intro j hj
    by_contra hlt
    exact hnone ⟨j, hj, not_le.mp hlt⟩
  have hqueue : ∀ j ≥ k, (σ j).queue ≠ [] := by
    intro j hj hnil
    have horder := congrArg List.length (Path.sound h h0 j).order
    have hpushed := (Path.grows h hj).2.2.length_le
    rw [hnil, List.append_nil] at horder
    have := hle j hj
    omega
  have hmany : ∀ n, ∃ j ≥ k, n ≤ (σ j).started.length := by
    intro n
    induction n with
    | zero => exact ⟨k, le_rfl, Nat.zero_le _⟩
    | succ n ih =>
      obtain ⟨j, hj, hn⟩ := ih
      obtain ⟨j', hj', hlt⟩ :=
        Path.takes h h0 hfair hworkers hrunning (k := j) (fun l hl => hqueue l (hj.trans hl))
      have hmono := (Path.grows h hj').2.1.length_le
      exact ⟨j' + 1, by omega, by omega⟩
  obtain ⟨j, hj, hn⟩ := hmany (i + 1)
  have := hle j hj
  omega

end progress

end WaitQueue

end KimRpc.Library
