import KimRpc.Application.Logger
import KimRpc.Library.WaitQueue

/-! The queue of the logger with its condition variable. `Push` adds a text and notifies while it
has the mutex; `Pop` sleeps while the queue is empty, and looks again whenever it wakes up. -/

namespace KimRpc.Application.Logger

open Discovery Library Library.Runs Wire

/-- The logger, and its queue with the one thread that pops. -/
structure Locked where
  logger : State := {}
  que : WaitQueue Bytes := .idle 1
  deriving DecidableEq

namespace Locked

/-- `other` is any step but a push and a pop. A push wakes the thread if that sleeps, and `pop`
is one turn of the loop in `Pop`. -/
inductive Act where
  | other (a : Action)
  | push (thread : ℕ) (woken : Option ℕ)
  | pop
  | spurious
  deriving DecidableEq

def again (que : WaitQueue Bytes) : WaitQueue Bytes := (que.step (.finish 0)).getD que

def step (s : Locked) : Act → Option Locked
  | .other (.log _) | .other .pop => none
  | .other (.fopen now opens) =>
    (Logger.step s.logger (.fopen now opens)).map
    (fun t => ⟨t, if opens then again s.que else s.que⟩)
  | .other a => (Logger.step s.logger a).map (fun t => ⟨t, s.que⟩)
  | .push thread woken =>
    ((s.logger.call thread).bind Call.c).bind
    (fun msg => (Logger.step s.logger (.log thread)).bind (fun t =>
      (s.que.step (.pushNotify msg woken)).map (Locked.mk t)))
  | .pop =>
    match s.logger.writer with
    | .popping _ =>
      (s.que.step (.enter 0)).map (Locked.mk ((Logger.step s.logger .pop).getD s.logger))
    | _ => none
  | .spurious => (s.que.step (.spurious 0)).map (Locked.mk s.logger)

def Opens (_ : Locked) : Act → Prop
  | .other (.fopen _ opens) => opens = true
  | _ => True

instance (s : Locked) : DecidablePred (Opens s)
  | .other (.fopen _ opens) => inferInstanceAs (Decidable (opens = true))
  | .other (.setLogLevel _ _ _) | .other (.snprintf _) | .other (.log _) | .other .pop |
      .other .stamp | .other .fputs
  | .push _ _ | .pop | .spurious => .isTrue trivial

def Act.OfWriter : Act → Prop
  | .other a => a.OfWriter
  | .pop => True
  | .push _ _ | .spurious => False

def Fits : Writer → Phase Bytes → Prop
  | .opening, phase | .exited _, phase => phase = .ready ∨ ∃ x, phase = .running x
  | .popping _, phase => phase = .ready ∨ phase = .asleep
  | .stamping _ _, phase | .putting _, phase => ∃ x, phase = .running x

structure Linked (s : Locked) : Prop where
  queue : s.logger.m_lckQue = s.que.queue
  owed : s.que.owed = 0
  stop : s.que.stop = false
  fits : ∃ phase, s.que.workers = [phase] ∧ Fits s.logger.writer phase
  sound : s.que.Sound
  ordered : Ordered s.logger

variable {s t : Locked} {a : Act}

lemma Linked.asleep (h : s.Linked) (hs : s.que.anyAsleep = true) :
    s.logger.m_lckQue = [] ∧ s.logger.written.length = s.logger.pushed.length := by
  obtain ⟨phase, hworkers, hfits⟩ := h.fits
  have hphase : phase = .asleep := by
    rw [WaitQueue.anyAsleep, hworkers] at hs
    cases phase <;> simp_all [Phase.isAsleep]
  subst hphase
  have hserved := h.sound.served hs
  have hempty : s.que.queue = [] := by
    rw [h.owed, WaitQueue.readies, hworkers] at hserved
    exact List.length_eq_zero_iff.mp (by simpa [Phase.isReady] using hserved)
  have hqueue := h.queue.trans hempty
  have hpopping : s.logger.writer = .opening ∨ ∃ now, s.logger.writer = .popping now := by
    cases hw : s.logger.writer with
    | popping now => exact .inr ⟨now, rfl⟩
    | _ => simp [Fits, hw] at hfits
  obtain ⟨hlines, hunstamped⟩ := lines_rest hqueue hpopping
  have hlen := congrArg List.length h.ordered
  rw [hlines, hunstamped, List.append_nil, List.length_map, List.length_map] at hlen
  exact ⟨hqueue, hlen⟩

lemma step_logger (hok : Opens s a) (h : s.step a = some t) :
    (t.logger = s.logger ∧
      (a.OfWriter → (∃ now, s.logger.writer = .popping now) ∧ Logger.step s.logger .pop = none)) ∨
    ∃ b, Logger.step s.logger b = some t.logger ∧ (a.OfWriter ↔ b.OfWriter) ∧
    ∀ now opens, b = .fopen now opens → opens = true := by
  cases a with
  | push thread woken =>
    obtain ⟨msg, -, h⟩ := Option.bind_eq_some_iff.mp h
    obtain ⟨u, hu, h⟩ := Option.bind_eq_some_iff.mp h
    obtain ⟨q, -, rfl⟩ := Option.map_eq_some_iff.mp h
    exact .inr ⟨.log thread, hu, Iff.rfl, by simp⟩
  | pop =>
    cases hw : s.logger.writer with
    | popping now =>
      simp only [step, hw, Option.map_eq_some_iff] at h
      obtain ⟨q, -, rfl⟩ := h
      cases hp : Logger.step s.logger .pop with
      | none => exact .inl ⟨rfl, fun _ => ⟨⟨now, rfl⟩, rfl⟩⟩
      | some u => exact .inr ⟨.pop, hp, Iff.rfl, by simp⟩
    | _ => simp [step, hw] at h
  | spurious =>
    obtain ⟨q, -, rfl⟩ := Option.map_eq_some_iff.mp h
    exact .inl ⟨rfl, False.elim⟩
  | other b =>
    cases b with
    | log thread => cases h
    | pop => cases h
    | fopen now opens =>
      obtain ⟨u, hu, rfl⟩ := Option.map_eq_some_iff.mp h
      refine .inr ⟨.fopen now opens, hu, Iff.rfl, fun _ _ heq => ?_⟩
      cases heq
      exact hok
    | _ =>
      obtain ⟨u, hu, rfl⟩ := Option.map_eq_some_iff.mp h
      exact .inr ⟨_, hu, Iff.rfl, by simp⟩

lemma Linked.keep {b : Action} {u : State} (h : s.Linked) (hstep : Logger.step s.logger b = some u)
    (hqueue : u.m_lckQue = s.logger.m_lckQue)
    (hfits : ∀ phase, Fits s.logger.writer phase → Fits u.writer phase) :
    Linked ⟨u, s.que⟩ := by
  obtain ⟨phase, hworkers, hphase⟩ := h.fits
  exact ⟨hqueue.trans h.queue, h.owed, h.stop, ⟨phase, hworkers, hfits phase hphase⟩, h.sound,
    h.ordered.step hstep⟩

lemma again_ready (h : s.Linked) {phase : Phase Bytes} (hworkers : s.que.workers = [phase])
    (hphase : phase = .ready ∨ ∃ x, phase = .running x) : (again s.que).queue = s.que.queue ∧
    (again s.que).owed = 0 ∧
      (again s.que).stop = false ∧ (again s.que).workers = [.ready] ∧ (again s.que).Sound := by
  rcases hphase with rfl | ⟨x, rfl⟩
  · have hagain : again s.que = s.que := by simp [again, WaitQueue.step, hworkers, Phase.task]
    rw [hagain]
    exact ⟨rfl, h.owed, h.stop, hworkers, h.sound⟩
  · have hfinish : s.que.step (.finish 0) = some (s.que.finish 0 x) := by
      simp [WaitQueue.step, hworkers, Phase.task]
    have hagain : again s.que = s.que.finish 0 x := by rw [again, hfinish, Option.getD_some]
    rw [hagain]
    refine ⟨rfl, h.owed, h.stop, ?_, h.sound.step hfinish⟩
    simp [WaitQueue.finish, WaitQueue.setWorker, hworkers]

lemma Linked.fopen {now : Tm} {opens : Bool} {u : State} (h : s.Linked)
    (hstep : Logger.step s.logger (.fopen now opens) = some u) :
    Linked ⟨u, if opens then again s.que else s.que⟩ := by
  obtain ⟨hw, hu⟩ := Option.ite_none_right_eq_some.mp (Option.ite_none_left_eq_some.mp hstep).2
  obtain ⟨phase, hworkers, hphase⟩ := h.fits
  rw [hw] at hphase
  cases opens with
  | false =>
    cases hu
    refine h.keep hstep rfl (fun _ hfits => ?_)
    rw [hw] at hfits
    exact hfits
  | true =>
    cases hu
    obtain ⟨hqueue, howed, hstop, hready, hsound⟩ := again_ready h hworkers hphase
    exact ⟨h.queue.trans hqueue.symm, howed, hstop, ⟨.ready, hready, .inl rfl⟩, hsound,
      h.ordered.step hstep⟩

lemma Linked.push {thread : ℕ} {woken : Option ℕ} {msg : Bytes} {u : State} {q : WaitQueue Bytes}
    (h : s.Linked)
    (hmsg : (s.logger.call thread).bind Call.c = some msg)
    (hstep : Logger.step s.logger (.log thread) = some u)
    (hpush : s.que.step (.pushNotify msg woken) = some q) : Linked ⟨u, q⟩ := by
  have hsound := h.sound.step hpush
  obtain ⟨phase, hworkers, hphase⟩ := h.fits
  obtain ⟨hwriter, hqueue⟩ : u.writer = s.logger.writer ∧
      u.m_lckQue = s.logger.m_lckQue ++ [msg] := by
    obtain ⟨call, hcall, hc⟩ := Option.bind_eq_some_iff.mp hmsg
    obtain ⟨-, hact⟩ := Option.ite_none_left_eq_some.mp hstep
    simp only [act, hcall, Option.bind_some, hc, Option.map_some, Option.some.injEq] at hact
    rw [← hact]
    exact ⟨rfl, rfl⟩
  cases woken with
  | none =>
    obtain ⟨-, hq⟩ := Option.ite_none_left_eq_some.mp hpush
    cases hq
    exact ⟨by rw [hqueue, h.queue]; rfl, h.owed, h.stop, ⟨phase, hworkers, hwriter ▸ hphase⟩,
      hsound, h.ordered.step hstep⟩
  | some w =>
    obtain ⟨hasleep, hq⟩ := Option.ite_none_right_eq_some.mp hpush
    cases hq
    have hw : w = 0 ∧ phase = .asleep := by
      simp only [WaitQueue.append, hworkers] at hasleep
      rcases w with _ | w
      · cases phase <;> simp_all [Phase.isAsleep]
      · simp at hasleep
    obtain ⟨rfl, rfl⟩ := hw
    refine ⟨by rw [hqueue, h.queue]; rfl, h.owed, h.stop, ⟨.ready, ?_, ?_⟩, hsound,
      h.ordered.step hstep⟩
    · simp [WaitQueue.append, WaitQueue.setWorker, hworkers]
    · rw [hwriter]
      cases hw : s.logger.writer with
      | popping now => exact .inl rfl
      | _ => simp [hw, Fits] at hphase

lemma Linked.pop {now : Tm} {q : WaitQueue Bytes} (h : s.Linked)
    (hw : s.logger.writer = .popping now)
    (henter : s.que.step (.enter 0) = some q) :
    Linked ⟨(Logger.step s.logger .pop).getD s.logger, q⟩ := by
  have hsound := h.sound.step henter
  obtain ⟨phase, hworkers, hphase⟩ := h.fits
  obtain ⟨-, henter⟩ := Option.ite_none_right_eq_some.mp henter
  have hlive : ¬ s.logger.writer.Exited := by
    rw [hw]
    exact id
  cases hq : s.que.queue with
  | nil =>
    have hnone : Logger.step s.logger .pop = none := by simp [step_eq hlive, act, hw, h.queue, hq]
    simp only [WaitQueue.enter, hq, h.stop, Bool.false_eq_true, ↓reduceIte,
      Option.some.injEq] at henter
    rw [hnone, Option.getD_none, ← henter]
    refine ⟨h.queue, h.owed, h.stop, ⟨.asleep, ?_, ?_⟩, henter ▸ hsound, h.ordered⟩
    · simp [WaitQueue.setWorker, hworkers]
    · rw [hw]
      exact .inr rfl
  | cons msg rest =>
    have hpop : Logger.step s.logger .pop = some { s.logger with
        writer := .stamping now msg, m_lckQue := rest } := by
      simp [step_eq hlive, act, hw, h.queue, hq]
    simp only [WaitQueue.enter, hq, Option.some.injEq] at henter
    rw [hpop, Option.getD_some, ← henter]
    refine ⟨rfl, h.owed, h.stop, ⟨.running msg, ?_, msg, rfl⟩, henter ▸ hsound, h.ordered.step hpop⟩
    simp [WaitQueue.setWorker, hworkers]

lemma Linked.spurious {q : WaitQueue Bytes} (h : s.Linked)
    (hwake : s.que.step (.spurious 0) = some q) :
    Linked ⟨s.logger, q⟩ := by
  have hsound := h.sound.step hwake
  obtain ⟨phase, hworkers, hphase⟩ := h.fits
  obtain ⟨hasleep, hq⟩ := Option.ite_none_right_eq_some.mp hwake
  cases hq
  refine ⟨h.queue, h.owed, h.stop, ⟨.ready, by simp [WaitQueue.setWorker, hworkers], ?_⟩, hsound,
    h.ordered⟩
  cases hw : s.logger.writer with
  | popping now => exact .inl rfl
  | opening | exited message => exact .inl rfl
  | stamping now msg | putting line =>
    rw [hw] at hphase
    obtain ⟨x, rfl⟩ := hphase
    simp [hworkers, Phase.isAsleep] at hasleep

lemma Linked.step (h : s.Linked) (hstep : s.step a = some t) : t.Linked := by
  cases a with
  | push thread woken =>
    obtain ⟨msg, hmsg, hstep⟩ := Option.bind_eq_some_iff.mp hstep
    obtain ⟨u, hu, hstep⟩ := Option.bind_eq_some_iff.mp hstep
    obtain ⟨q, hq, rfl⟩ := Option.map_eq_some_iff.mp hstep
    exact h.push hmsg hu hq
  | pop =>
    cases hw : s.logger.writer with
    | popping now =>
      simp only [Locked.step, hw, Option.map_eq_some_iff] at hstep
      obtain ⟨q, hq, rfl⟩ := hstep
      exact h.pop hw hq
    | _ => simp [Locked.step, hw] at hstep
  | spurious =>
    obtain ⟨q, hq, rfl⟩ := Option.map_eq_some_iff.mp hstep
    exact h.spurious hq
  | other b =>
    cases b with
    | log thread => cases hstep
    | pop => cases hstep
    | fopen now opens =>
      obtain ⟨u, hu, rfl⟩ := Option.map_eq_some_iff.mp hstep
      exact h.fopen hu
    | setLogLevel thread level output =>
      obtain ⟨u, hu, rfl⟩ := Option.map_eq_some_iff.mp hstep
      obtain ⟨-, hact⟩ := Option.ite_none_right_eq_some.mp (Option.ite_none_left_eq_some.mp hu).2
      cases hact
      exact h.keep hu rfl (fun _ hfits => hfits)
    | snprintf thread =>
      obtain ⟨u, hu, rfl⟩ := Option.map_eq_some_iff.mp hstep
      obtain ⟨call, -, hact⟩ := Option.bind_eq_some_iff.mp (Option.ite_none_left_eq_some.mp hu).2
      obtain ⟨-, hact⟩ := Option.ite_none_right_eq_some.mp hact
      cases hact
      exact h.keep hu rfl (fun _ hfits => hfits)
    | stamp =>
      obtain ⟨u, hu, rfl⟩ := Option.map_eq_some_iff.mp hstep
      have hact := (Option.ite_none_left_eq_some.mp hu).2
      cases hw : s.logger.writer with
      | stamping now msg =>
        simp only [act, hw, Option.some.injEq] at hact
        refine h.keep hu (by rw [← hact]; rfl) (fun phase hfits => ?_)
        rw [hw] at hfits
        rw [← hact]
        exact hfits
      | _ => simp [act, hw] at hact
    | fputs =>
      obtain ⟨u, hu, rfl⟩ := Option.map_eq_some_iff.mp hstep
      have hact := (Option.ite_none_left_eq_some.mp hu).2
      cases hw : s.logger.writer with
      | putting line =>
        simp only [act, hw, Option.some.injEq] at hact
        refine h.keep hu (by rw [← hact]) (fun phase hfits => ?_)
        rw [hw] at hfits
        rw [← hact]
        exact .inr hfits
      | _ => simp [act, hw] at hact

lemma linked_run {acts : List Act} (h : Run Locked.step Opens {} acts s) : s.Linked := by
  refine h.invariant ?_ (fun _ _ _ hu _ hstep => hu.step hstep)
  exact ⟨rfl, rfl, rfl, ⟨.ready, rfl, .inl rfl⟩, WaitQueue.sound_idle 1, rfl⟩

section progress

lemma settled_writer {b : Action} (hw : b.OfWriter)
    (hopens : ∀ now opens, b = .fopen now opens → opens = true) :
    Settled s.logger b := by
  cases b with
  | fopen now opens => exact hopens now opens rfl
  | pop | stamp | fputs => trivial
  | _ => cases hw

lemma progress_grows (hok : Opens s a) (h : s.step a = some t) :
    s.logger.progress ≤ t.logger.progress ∧ s.logger.pushed.length ≤ t.logger.pushed.length := by
  rcases step_logger hok h with ⟨hsame, -⟩ | ⟨b, hb, -, hopens⟩
  · rw [hsame]
    exact ⟨le_rfl, le_rfl⟩
  · refine ⟨?_, pushed_le hb⟩
    by_cases hw : b.OfWriter
    · rw [progress_writer (settled_writer hw hopens) hw hb]
      exact Nat.le_succ _
    · obtain ⟨hwriter, hwritten⟩ := other_writer hw hb
      rw [State.progress, State.progress, hwriter, hwritten]

lemma Linked.progress (hl : s.Linked) (hok : Opens s a) (hw : a.OfWriter) (h : s.step a = some t)
    (hless : s.logger.written.length < s.logger.pushed.length) :
    t.logger.progress = s.logger.progress + 1 := by
  rcases step_logger hok h with ⟨-, hpop⟩ | ⟨b, hb, hiff, hopens⟩
  · obtain ⟨⟨now, hwriter⟩, hnone⟩ := hpop hw
    have hlive : ¬ s.logger.writer.Exited := by
      rw [hwriter]
      exact id
    have hempty : s.logger.m_lckQue = [] := by
      cases hq : s.logger.m_lckQue with
      | nil => rfl
      | cons msg rest => simp [step_eq hlive, act, hwriter, hq] at hnone
    obtain ⟨hlines, hunstamped⟩ := lines_rest hempty (.inr ⟨now, hwriter⟩)
    have hlen := congrArg List.length hl.ordered
    rw [hlines, hunstamped, List.append_nil, List.length_map, List.length_map] at hlen
    omega
  · exact progress_writer (settled_writer (hiff.mp hw) hopens) (hiff.mp hw) hb

/-- The lines are the texts in the order of their pushes. The thread sleeps only when all are
written, so that no notification is missed: as long as it goes on when it does not sleep, each
text is written. -/
theorem texts_written {acts : List Act} (h : Run Locked.step Opens {} acts s) :
    s.logger.written.map Line.msg <+: s.logger.pushed.map Prod.snd ∧
    (s.que.anyAsleep = true → s.logger.m_lckQue = [] ∧
      s.logger.written.length = s.logger.pushed.length) ∧
    ∀ {σ : ℕ → Locked} {α : ℕ → Act}, Path Locked.step Opens σ α → σ 0 = s →
      (∀ k, (σ k).que.anyAsleep = false → ∃ j ≥ k, (α j).OfWriter) →
        ∃ j, s.logger.pushed.length ≤ (σ j).logger.written.length := by
  have hlinked := linked_run h
  refine ⟨?_, hlinked.asleep, ?_⟩
  · rw [← hlinked.ordered]
    exact (written_of_lines.map _).trans (List.prefix_append _ _)
  rintro σ α hpath rfl hgoes
  have hl : ∀ k, (σ k).Linked := fun k => linked_run (h.append (hpath.run k))
  have hpushed : Monotone (fun j => (σ j).logger.pushed.length) :=
    monotone_nat_of_le_succ (fun j => (progress_grows (hpath.allowed j) (hpath.next j)).2)
  obtain ⟨j, hj⟩ : ∃ j, ¬ (σ j).logger.progress < 4 * (σ 0).logger.pushed.length := by
    refine rank_ends (P := fun s : Locked => s.logger.progress < 4 * (σ 0).logger.pushed.length)
      (fun s : Locked => 4 * (σ 0).logger.pushed.length - s.logger.progress) ?_ ?_
    · intro j _ _
      exact Nat.sub_le_sub_left (progress_grows (hpath.allowed j) (hpath.next j)).1 _
    · intro hbehind k
      have hless : ∀ i, (σ i).logger.written.length < (σ i).logger.pushed.length := by
        intro i
        have hback := hbehind i
        have hmore : (σ 0).logger.pushed.length ≤ (σ i).logger.pushed.length :=
          hpushed (Nat.zero_le i)
        simp only [State.progress] at hback
        omega
      -- it is awake, since a text waits for it
      have hawake : (σ k).que.anyAsleep = false := by
        by_contra hasleep
        have hall := ((hl k).asleep (by simpa using hasleep)).2
        have hsome := hless k
        omega
      obtain ⟨j, hge, hwriter⟩ := hgoes k hawake
      refine ⟨j, hge, ?_⟩
      have hnext := (hl j).progress (hpath.allowed j) hwriter (hpath.next j) (hless j)
      have hback := hbehind j
      omega
  have hlt := progress_lt (σ j).logger
  exact ⟨j, by omega⟩

end progress

section sample

def sampleActs : List Act :=
  [.other (.fopen sampleTime true), .pop, .other (.setLogLevel 1 .info (text "up")),
    .other (.snprintf 1), .push 1 (some 0)]

def sampleLocked (k : ℕ) : Locked :=
  let msg := formatted (text "up")
  let pushed := [(LogLevel.info, msg)]
  match k with
  | 0 => ⟨{ pushed, m_lckQue := [msg], writer := .popping sampleTime },
      { queue := [msg], workers := [.ready], pushed := [msg] }⟩
  | 1 => ⟨{ pushed, writer := .stamping sampleTime msg },
      { workers := [.running msg], pushed := [msg], started := [msg] }⟩
  | 2 => ⟨{ pushed, writer := .putting sampleLine },
      { workers := [.running msg], pushed := [msg], started := [msg] }⟩
  | 3 => ⟨{ pushed, written := [sampleLine] },
      { workers := [.running msg], pushed := [msg], started := [msg] }⟩
  | k + 4 => ⟨{ pushed, written := [sampleLine], writer := .popping sampleTime },
      { workers := [if k % 2 = 0 then .ready else .asleep], pushed := [msg], started := [msg],
        finished := [msg] }⟩

def sampleAct : ℕ → Act
  | 0 => .pop
  | 1 => .other .stamp
  | 2 => .other .fputs
  | 3 => .other (.fopen sampleTime true)
  | k + 4 => if k % 2 = 0 then .pop else .spurious

lemma sample_path : Path Locked.step Opens sampleLocked sampleAct := by
  refine ⟨fun k => ?_, fun k => ?_⟩
  · rcases k with _ | _ | _ | _ | k
    · trivial
    · trivial
    · trivial
    · rfl
    · simp only [sampleAct]
      split_ifs <;> trivial
  · rcases k with _ | _ | _ | _ | k
    · rfl
    · rfl
    · rfl
    · rfl
    · rcases Nat.mod_two_eq_zero_or_one k with hk | hk
      · have hnext : (k + 1) % 2 = 1 := by omega
        simp only [sampleLocked, sampleAct, hk, hnext]
        rfl
      · have hnext : (k + 1) % 2 = 0 := by omega
        simp only [sampleLocked, sampleAct, hk, hnext]
        rfl

theorem texts_written_sample : exec Locked.step {} sampleActs = some (sampleLocked 0) ∧
    ∃ j, 1 ≤ (sampleLocked j).logger.written.length := by
  have hexec : exec Locked.step {} sampleActs = some (sampleLocked 0) := by decide +kernel
  refine ⟨hexec, (texts_written (.of_exec hexec (by decide +kernel))).2.2 sample_path rfl
    (fun k _ => ⟨2 * k + 4, by omega, ?_⟩)⟩
  simp [sampleAct, Act.OfWriter]

end sample

end Locked

end KimRpc.Application.Logger
