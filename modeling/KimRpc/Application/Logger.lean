import KimRpc.Discovery.Base64
import KimRpc.Library.Decimal
import KimRpc.Library.Runs

/-! The logger: macros of many threads, which set its level and push a text, and the one
thread that writes the texts to a file. -/

namespace KimRpc.Application.Logger

open Discovery Library.Decimal Library.Runs Wire

inductive LogLevel where
  | info
  | error
  deriving DecidableEq

def LogLevel.name : LogLevel → Bytes
  | .info => text "info"
  | .error => text "error"

/-- What `snprintf` leaves in a buffer of 1024 bytes, as a string. -/
def formatted (output : Bytes) : Bytes := (output.takeWhile (· ≠ 0)).take 1023

structure Call where
  thread : ℕ
  level : LogLevel
  output : Bytes
  c : Option Bytes := none
  deriving DecidableEq

structure Tm where
  year : ℕ
  mon : ℕ
  mday : ℕ
  hour : ℕ
  min : ℕ
  sec : ℕ
  deriving DecidableEq

def padded (width n : ℕ) : Bytes := List.replicate (width - (decimal n).length) 48 ++ decimal n

def Tm.fileName (now : Tm) : Bytes :=
  padded 4 now.year ++ 45 :: (padded 2 now.mon ++ 45 :: padded 2 now.mday) ++ text "-log.txt"

structure Line where
  now : Tm
  level : Bytes
  msg : Bytes
  deriving DecidableEq

def Line.text (line : Line) : Bytes :=
  padded 2 line.now.hour ++ 58 :: (padded 2 line.now.min ++ 58 :: padded 2 line.now.sec) ++
    Discovery.text " =>[" ++ line.level ++ Discovery.text "] " ++ line.msg ++ [10]

inductive Writer where
  | opening
  | popping (now : Tm)
  | stamping (now : Tm) (msg : Bytes)
  | putting (line : Line)
  | exited (message : Bytes)
  deriving DecidableEq

/-- `pushed` has the level of the macro of each text pushed. -/
structure State where
  m_loglevel : LogLevel := .info
  calls : List Call := []
  m_lckQue : List Bytes := []
  writer : Writer := .opening
  written : List Line := []
  pushed : List (LogLevel × Bytes) := []
  deriving DecidableEq

inductive Action where
  | setLogLevel (thread : ℕ) (level : LogLevel) (output : Bytes)
  | snprintf (thread : ℕ)
  | log (thread : ℕ)
  | fopen (now : Tm) (opens : Bool)
  | pop
  | stamp
  | fputs
  deriving DecidableEq

namespace State

def call (s : State) (thread : ℕ) : Option Call := s.calls.find? (fun c => c.thread = thread)

def setLogLevel (s : State) (thread : ℕ) (level : LogLevel) (output : Bytes) : State :=
  { s with m_loglevel := level, calls := ⟨thread, level, output, none⟩ :: s.calls }

def snprintf (s : State) (call : Call) : State :=
  { s with calls := { call with c := some (formatted call.output) } :: s.calls.erase call }

def log (s : State) (call : Call) (msg : Bytes) : State :=
  { s with calls := s.calls.erase call, m_lckQue := s.m_lckQue ++ [msg],
           pushed := s.pushed ++ [(call.level, msg)] }

/-- A step of the writing thread; `exit` ends the process. -/
def fopen (s : State) (now : Tm) (opens : Bool) : State :=
  if opens then { s with writer := .popping now }
  else { s with writer := .exited (text "logger file: " ++ now.fileName ++ text " can not open") }

def stamp (s : State) (now : Tm) (msg : Bytes) : State :=
  let level := if s.m_loglevel = .info then text "info" else text "error"
  { s with writer := .putting ⟨now, level, msg⟩ }

end State

/-- Threads take turns at steps that each are atomic. -/
def act (s : State) : Action → Option State
  | .setLogLevel thread level output =>
    if s.call thread = none then some (s.setLogLevel thread level output) else none
  | .snprintf thread =>
    (s.call thread).bind (fun call => if call.c = none then some (s.snprintf call) else none)
  | .log thread => (s.call thread).bind (fun call => call.c.map (s.log call))
  | .fopen now opens => if s.writer = .opening then some (s.fopen now opens) else none
  | .pop =>
    match s.writer, s.m_lckQue with
    | .popping now, msg :: rest => some { s with writer := .stamping now msg, m_lckQue := rest }
    | _, _ => none
  | .stamp =>
    match s.writer with
    | .stamping now msg => some (s.stamp now msg)
    | _ => none
  | .fputs =>
    match s.writer with
    | .putting line => some { s with writer := .opening, written := s.written ++ [line] }
    | _ => none

def Writer.Exited : Writer → Prop
  | .exited _ => True
  | _ => False

instance : DecidablePred Writer.Exited
  | .exited _ => .isTrue trivial
  | .opening | .popping _ | .stamping _ _ | .putting _ => .isFalse id

def step (s : State) (a : Action) : Option State := if s.writer.Exited then none else act s a

namespace State

variable (s : State)

def lines : List Line :=
  match s.writer with
  | .putting line => s.written ++ [line]
  | _ => s.written

def unstamped : List Bytes :=
  match s.writer with
  | .stamping _ msg => msg :: s.m_lckQue
  | _ => s.m_lckQue

structure Kept : Prop where
  order : s.written.map (fun line => (line.level, line.msg)) <+:
      s.pushed.map (fun m => (m.1.name, m.2))
  all : s.m_lckQue = [] → (s.writer = .opening ∨ ∃ now, s.writer = .popping now) →
      s.written.length = s.pushed.length

end State

/-- A macro sets its level when every text without a level, pushed or not, is of that level; the
file opens. -/
def Settled (s : State) : Action → Prop
  | .setLogLevel _ level _ =>
    (∀ call ∈ s.calls, call.level = level) ∧ ∀ m ∈ s.pushed.drop s.lines.length, m.1 = level
  | .fopen _ opens => opens = true
  | .snprintf _ | .log _ | .pop | .stamp | .fputs => True

instance (s : State) : DecidablePred (Settled s)
  | .setLogLevel _ level _ => inferInstanceAs (Decidable ((∀ call ∈ s.calls, call.level = level) ∧
      ∀ m ∈ s.pushed.drop s.lines.length, m.1 = level))
  | .fopen _ opens => inferInstanceAs (Decidable (opens = true))
  | .snprintf _ | .log _ | .pop | .stamp | .fputs => .isTrue trivial

section steps

variable {s t : State} {a : Action}

inductive Does (s : State) (a : Action) (t : State) : Prop
  | set (thread : ℕ) (level : LogLevel) (output : Bytes)
      (action : a = .setLogLevel thread level output)
      (call : Call) (own : call.level = level) (calls : t.calls = call :: s.calls)
      (current : t.m_loglevel = level)
      (lines : t.lines = s.lines) (unstamped : t.unstamped = s.unstamped)
      (pushed : t.pushed = s.pushed)
  | pass (calls : ∀ call ∈ t.calls, ∃ call' ∈ s.calls, call.level = call'.level)
      (current : t.m_loglevel = s.m_loglevel) (lines : t.lines = s.lines)
      (unstamped : t.unstamped = s.unstamped)
      (pushed : t.pushed = s.pushed)
  | push (call : Call) (msg : Bytes) (caller : call ∈ s.calls)
      (calls : t.calls = s.calls.erase call)
      (current : t.m_loglevel = s.m_loglevel) (lines : t.lines = s.lines)
      (unstamped : t.unstamped = s.unstamped ++ [msg])
      (pushed : t.pushed = s.pushed ++ [(call.level, msg)])
  | stamp (now : Tm) (msg : Bytes) (calls : t.calls = s.calls)
      (current : t.m_loglevel = s.m_loglevel)
      (lines : t.lines = s.lines ++ [⟨now, s.m_loglevel.name, msg⟩])
      (unstamped : s.unstamped = msg :: t.unstamped)
      (pushed : t.pushed = s.pushed)

lemma act_does (h : act s a = some t) : Does s a t := by
  cases a with
  | setLogLevel thread level output =>
    obtain ⟨-, h⟩ := Option.ite_none_right_eq_some.mp h
    cases h
    exact .set thread level output rfl _ rfl rfl rfl rfl rfl rfl
  | snprintf thread =>
    obtain ⟨call, hcall, h⟩ := Option.bind_eq_some_iff.mp h
    obtain ⟨-, h⟩ := Option.ite_none_right_eq_some.mp h
    cases h
    refine .pass ?_ rfl rfl rfl rfl
    intro c hc
    rcases List.mem_cons.mp hc with rfl | hc
    · exact ⟨call, List.mem_of_find?_eq_some hcall, rfl⟩
    · exact ⟨c, List.mem_of_mem_erase hc, rfl⟩
  | log thread =>
    obtain ⟨call, hcall, h⟩ := Option.bind_eq_some_iff.mp h
    obtain ⟨msg, -, rfl⟩ := Option.map_eq_some_iff.mp h
    refine .push call msg (List.mem_of_find?_eq_some hcall) rfl rfl rfl ?_ rfl
    rw [State.unstamped, State.unstamped, State.log]
    cases s.writer <;> rfl
  | fopen now opens =>
    obtain ⟨hw, h⟩ := Option.ite_none_right_eq_some.mp h
    cases h
    cases opens with
    | true =>
      refine .pass (fun c hc => ⟨c, hc, rfl⟩) rfl ?_ ?_ rfl
      · simp [State.fopen, State.lines, hw]
      · simp [State.fopen, State.unstamped, hw]
    | false =>
      refine .pass (fun c hc => ⟨c, hc, rfl⟩) rfl ?_ ?_ rfl
      · simp [State.fopen, State.lines, hw]
      · simp [State.fopen, State.unstamped, hw]
  | pop =>
    cases hw : s.writer with
    | popping now =>
      cases hq : s.m_lckQue with
      | nil => simp [act, hw, hq] at h
      | cons msg rest =>
        simp only [act, hw, hq, Option.some.injEq] at h
        subst h
        exact .pass (fun c hc => ⟨c, hc, rfl⟩) rfl (by simp [State.lines, hw])
          (by simp [State.unstamped, hw, hq]) rfl
    | _ => simp [act, hw] at h
  | stamp =>
    cases hw : s.writer with
    | stamping now msg =>
      simp only [act, hw, Option.some.injEq] at h
      subst h
      refine .stamp now msg rfl rfl ?_ (by simp [State.stamp, State.unstamped, hw]) rfl
      cases hl : s.m_loglevel <;> simp [State.stamp, State.lines, hw, hl, LogLevel.name]
    | _ => simp [act, hw] at h
  | fputs =>
    cases hw : s.writer with
    | putting line =>
      simp only [act, hw, Option.some.injEq] at h
      subst h
      exact .pass (fun c hc => ⟨c, hc, rfl⟩) rfl (by simp [State.lines, hw])
        (by simp [State.unstamped, hw]) rfl
    | _ => simp [act, hw] at h

lemma step_does (h : step s a = some t) : Does s a t :=
  act_does (Option.ite_none_left_eq_some.mp h).2

end steps

section runs

variable {s t : State} {a : Action} {as : List Action}

def Ordered (s : State) : Prop := s.lines.map Line.msg ++ s.unstamped = s.pushed.map Prod.snd

lemma Ordered.step (h : Ordered s) (hs : step s a = some t) : Ordered t := by
  rw [Ordered] at h ⊢
  cases step_does hs with
  | set _ _ _ _ _ _ _ _ lines unstamped pushed => rw [lines, unstamped, pushed, h]
  | pass _ _ lines unstamped pushed => rw [lines, unstamped, pushed, h]
  | push call msg _ _ _ lines unstamped pushed =>
    rw [lines, unstamped, pushed, ← List.append_assoc, h, List.map_append, List.map_singleton]
  | stamp now msg _ _ lines unstamped pushed =>
    rw [lines, pushed, ← h, unstamped, List.map_append, List.append_assoc, List.map_singleton,
      List.singleton_append]

structure Levelled (s : State) : Prop where
  texts : s.lines.map (fun line => (line.level, line.msg)) ++
      s.unstamped.map (fun msg => (s.m_loglevel.name, msg)) =
    s.pushed.map (fun m => (m.1.name, m.2))
  calls : ∀ call ∈ s.calls, call.level = s.m_loglevel

lemma Levelled.pending (h : Levelled s) :
    s.unstamped.map (fun msg => (s.m_loglevel.name, msg)) =
      (s.pushed.drop s.lines.length).map (fun m => (m.1.name, m.2)) := by
  rw [List.map_drop, ← h.texts, List.drop_left' (List.length_map _)]

lemma Levelled.step (h : Levelled s) (hok : Settled s a) (hs : step s a = some t) : Levelled t := by
  cases step_does hs with
  | set thread level output action call own calls current lines unstamped pushed =>
    subst action
    obtain ⟨hcalls, hpushed⟩ := hok
    refine ⟨?_, ?_⟩
    · have hsame : s.unstamped.map (fun msg => (level.name, msg)) =
          s.unstamped.map (fun msg => (s.m_loglevel.name, msg)) := by
        apply List.map_congr_left
        intro msg hmsg
        have hmem : (s.m_loglevel.name, msg) ∈ (s.pushed.drop s.lines.length).map
            (fun m => (m.1.name, m.2)) := by
          rw [← h.pending]
          exact List.mem_map_of_mem hmsg
        obtain ⟨m, hm, heq⟩ := List.mem_map.mp hmem
        rw [← hpushed m hm, (Prod.mk.inj heq).1]
      rw [lines, unstamped, pushed, current, hsame, h.texts]
    · rw [calls, current, List.forall_mem_cons]
      exact ⟨own, hcalls⟩
  | pass calls current lines unstamped pushed =>
    refine ⟨by rw [lines, unstamped, pushed, current, h.texts], ?_⟩
    intro c hc
    obtain ⟨c', hc', heq⟩ := calls c hc
    rw [heq, current, h.calls c' hc']
  | push call msg caller calls current lines unstamped pushed =>
    refine ⟨?_, ?_⟩
    · rw [lines, unstamped, pushed, current, List.map_append, ← List.append_assoc, h.texts,
        List.map_append,
        List.map_singleton, List.map_singleton, h.calls call caller]
    · intro c hc
      rw [calls] at hc
      rw [current]
      exact h.calls c (List.mem_of_mem_erase hc)
  | stamp now msg calls current lines unstamped pushed =>
    refine ⟨?_, ?_⟩
    · rw [pushed, ← h.texts, unstamped, lines, current, List.map_append, List.append_assoc,
        List.map_singleton,
        List.singleton_append, List.map_cons]
    · rw [calls, current]
      exact h.calls

lemma levelled_run (h : Run step Settled {} as s) : Levelled s := by
  refine h.invariant ⟨rfl, ?_⟩ (fun _ _ _ hu hok hs => hu.step hok hs)
  intro c hc
  cases hc

lemma written_of_lines : s.written <+: s.lines := by
  rw [State.lines]
  cases s.writer <;> first | exact List.prefix_append _ _ | exact List.prefix_rfl

lemma lines_rest (hq : s.m_lckQue = [])
    (hw : s.writer = .opening ∨ ∃ now, s.writer = .popping now) :
    s.lines = s.written ∧ s.unstamped = [] := by
  rcases hw with hw | ⟨now, hw⟩
  · simp [State.lines, State.unstamped, hw, hq]
  · simp [State.lines, State.unstamped, hw, hq]

lemma Levelled.kept (h : Levelled s) : s.Kept where
  order := by
    rw [← h.texts]
    exact (written_of_lines.map _).trans (List.prefix_append _ _)
  all hq hw := by
    obtain ⟨hlines, hunstamped⟩ := lines_rest hq hw
    have hlen := congrArg List.length h.texts
    rw [hlines, hunstamped, List.length_append, List.length_map, List.length_map,
      List.length_map] at hlen
    simpa using hlen

end runs

section progress

variable {s t : State} {a : Action}

def Action.OfWriter : Action → Prop
  | .fopen _ _ | .pop | .stamp | .fputs => True
  | .setLogLevel _ _ _ | .snprintf _ | .log _ => False

def Writer.stage : Writer → ℕ
  | .opening => 0
  | .popping _ => 1
  | .stamping _ _ => 2
  | .putting _ => 3
  | .exited _ => 0

def State.progress (s : State) : ℕ := 4 * s.written.length + s.writer.stage

lemma progress_writer (hok : Settled s a) (hw : a.OfWriter) (h : step s a = some t) :
    t.progress = s.progress + 1 := by
  have h := (Option.ite_none_left_eq_some.mp h).2
  cases a with
  | fopen now opens =>
    obtain rfl : opens = true := hok
    obtain ⟨hs, h⟩ := Option.ite_none_right_eq_some.mp h
    cases h
    simp [State.progress, State.fopen, Writer.stage, hs]
  | pop =>
    cases hs : s.writer with
    | popping now =>
      cases hq : s.m_lckQue with
      | nil => simp [act, hs, hq] at h
      | cons msg rest =>
        simp only [act, hs, hq, Option.some.injEq] at h
        subst h
        simp [State.progress, Writer.stage, hs]
    | _ => simp [act, hs] at h
  | stamp =>
    cases hs : s.writer with
    | stamping now msg =>
      simp only [act, hs, Option.some.injEq] at h
      subst h
      simp [State.progress, State.stamp, Writer.stage, hs]
    | _ => simp [act, hs] at h
  | fputs =>
    cases hs : s.writer with
    | putting line =>
      simp only [act, hs, Option.some.injEq] at h
      subst h
      simp [State.progress, Writer.stage, hs]
      omega
    | _ => simp [act, hs] at h
  | _ => cases hw

lemma other_writer (hw : ¬ a.OfWriter) (h : step s a = some t) : t.writer = s.writer ∧
    t.written = s.written := by
  have h := (Option.ite_none_left_eq_some.mp h).2
  cases a with
  | setLogLevel thread level output =>
    obtain ⟨-, h⟩ := Option.ite_none_right_eq_some.mp h
    cases h
    exact ⟨rfl, rfl⟩
  | snprintf thread =>
    obtain ⟨call, -, h⟩ := Option.bind_eq_some_iff.mp h
    obtain ⟨-, h⟩ := Option.ite_none_right_eq_some.mp h
    cases h
    exact ⟨rfl, rfl⟩
  | log thread =>
    obtain ⟨call, -, h⟩ := Option.bind_eq_some_iff.mp h
    obtain ⟨msg, -, rfl⟩ := Option.map_eq_some_iff.mp h
    exact ⟨rfl, rfl⟩
  | _ => exact absurd trivial hw

lemma progress_le (hok : Settled s a) (h : step s a = some t) : s.progress ≤ t.progress := by
  by_cases hw : a.OfWriter
  · rw [progress_writer hok hw h]
    exact Nat.le_succ _
  · obtain ⟨hwriter, hwritten⟩ := other_writer hw h
    rw [State.progress, State.progress, hwriter, hwritten]

lemma progress_lt (s : State) : s.progress < 4 * (s.written.length + 1) := by
  have hstage : s.writer.stage < 4 := by cases s.writer <;> simp [Writer.stage]
  rw [State.progress]
  omega

lemma pushed_le (h : step s a = some t) : s.pushed.length ≤ t.pushed.length := by
  cases step_does h with
  | set _ _ _ _ _ _ _ _ _ _ pushed => rw [pushed]
  | pass _ _ _ _ pushed => rw [pushed]
  | push _ _ _ _ _ _ _ pushed => simp [pushed]
  | stamp _ _ _ _ _ _ pushed => rw [pushed]

lemma step_eq (hlive : ¬ s.writer.Exited) : step s a = act s a := if_neg hlive

variable {σ : ℕ → State} {α : ℕ → Action}

lemma all_written (h : Path step Settled σ α)
    (hfair : ∀ k, (σ k).written.length < (σ k).pushed.length → ∃ j ≥ k, (α j).OfWriter) (k : ℕ) :
    ∃ j ≥ k, (σ k).pushed.length ≤ (σ j).written.length := by
  have hprogress : Monotone (fun j => (σ j).progress) :=
    monotone_nat_of_le_succ (fun j => progress_le (h.allowed j) (h.next j))
  have hpushed : Monotone (fun j => (σ j).pushed.length) :=
    monotone_nat_of_le_succ (fun j => pushed_le (h.next j))
  obtain ⟨j, hj⟩ : ∃ j, ¬ (σ j).progress < 4 * (σ k).pushed.length := by
    -- each step of the writing thread takes it nearer to writing the texts that were there
    refine rank_ends (P := fun s : State => s.progress < 4 * (σ k).pushed.length)
      (fun s : State => 4 * (σ k).pushed.length - s.progress) ?_ ?_
    · intro j _ _
      exact Nat.sub_le_sub_left (hprogress (Nat.le_succ j)) _
    · intro hless i
      have hback := hless (max i k)
      have hmore : (σ k).pushed.length ≤ (σ (max i k)).pushed.length := hpushed (le_max_right i k)
      simp only [State.progress] at hback
      obtain ⟨j, hge, hwriter⟩ := hfair (max i k) (by omega)
      refine ⟨j, (le_max_left i k).trans hge, ?_⟩
      have hnext := progress_writer (h.allowed j) hwriter (h.next j)
      have hlt := hless j
      omega
  refine ⟨max j k, le_max_right j k, ?_⟩
  have hmax := hprogress (le_max_left j k)
  have hlt := progress_lt (σ (max j k))
  simp only at hmax
  omega

end progress

/-- An error that is logged before the line of an earlier text has its level. -/
theorem own_level_fails : ¬ ∀ (as : List Action) (t : State), Run step Any {} as t → t.Kept := by
  intro hall
  have hexec : exec step {} [.setLogLevel 1 .info (text "up"), .snprintf 1, .log 1,
      .setLogLevel 2 .error (text "down"), .fopen ⟨2025, 1, 2, 3, 4, 5⟩ true, .pop, .stamp,
      .fputs] =
      some ⟨.error, [⟨2, .error, text "down", none⟩], [], .opening,
        [⟨⟨2025, 1, 2, 3, 4, 5⟩, text "error", text "up"⟩], [(.info, text "up")]⟩ := by
          decide +kernel
  have hkept := hall _ _ (.of_exec hexec (by decide +kernel))
  exact absurd hkept.order (by decide +kernel)

/-- A level that is set only when no text of the other level waits for its line is that of every
line, and each text is written as long as the writing thread goes on. -/
theorem own_level {as : List Action} {t : State} (h : Run step Settled {} as t) :
    t.Kept ∧ ∀ {σ : ℕ → State} {α : ℕ → Action}, Path step Settled σ α → σ 0 = t →
      (∀ k, (σ k).written.length < (σ k).pushed.length → ∃ j ≥ k, (α j).OfWriter) →
        ∃ j, t.pushed.length ≤ (σ j).written.length := by
  refine ⟨(levelled_run h).kept, fun hpath hstart hfair => ?_⟩
  obtain ⟨j, -, hj⟩ := all_written hpath hfair 0
  rw [hstart] at hj
  exact ⟨j, hj⟩

section sample

def sampleTime : Tm := ⟨2025, 1, 2, 3, 4, 5⟩

def sampleLine : Line := ⟨sampleTime, text "info", formatted (text "up")⟩

def sampleActions : List Action :=
  [.setLogLevel 1 .info (text "up"), .snprintf 1, .log 1, .fopen sampleTime true, .pop, .stamp,
    .fputs]

def sampleState (q r : ℕ) : State :=
  let written := List.replicate q sampleLine
  let pushed := List.replicate q (LogLevel.info, formatted (text "up"))
  let more := pushed ++ [(.info, formatted (text "up"))]
  match r with
  | 0 => { written, pushed }
  | 1 => { written, pushed, calls := [⟨1, .info, text "up", none⟩] }
  | 2 => { written, pushed, calls := [⟨1, .info, text "up", some (formatted (text "up"))⟩] }
  | 3 => { written, pushed := more, m_lckQue := [formatted (text "up")] }
  | 4 => { written, pushed := more, m_lckQue := [formatted (text "up")],
           writer := .popping sampleTime }
  | 5 => { written, pushed := more, writer := .stamping sampleTime (formatted (text "up")) }
  | _ => { written, pushed := more, writer := .putting sampleLine }

def sampleAction (r : ℕ) : Action := sampleActions.getD r .fputs

lemma sample_next (q : ℕ) {r : ℕ} (hr : r < 6) :
    step (sampleState q r) (sampleAction r) = some (sampleState q (r + 1)) := by
  interval_cases r <;> rfl

lemma sample_round (q : ℕ) : step (sampleState q 6) (sampleAction 6) = some
    (sampleState (q + 1) 0) := by
  simp only [sampleState, List.replicate_succ']
  rfl

lemma sample_settled (q : ℕ) {r : ℕ} (hr : r < 7) : Settled (sampleState q r) (sampleAction r) := by
  interval_cases r
  · refine ⟨fun c hc => ?_, fun m hm => ?_⟩
    · cases hc
    · rw [List.eq_of_mem_replicate (List.mem_of_mem_drop hm)]
  · trivial
  · trivial
  · rfl
  · trivial
  · trivial
  · trivial

lemma sample_path (n : ℕ) :
    Path step Settled (fun k => sampleState ((n + k) / 7) ((n + k) % 7))
      (fun k => sampleAction ((n + k) % 7)) where
  allowed k := sample_settled _ (Nat.mod_lt _ (by omega))
  next k := by
    rw [← Nat.add_assoc]
    generalize n + k = m
    by_cases hr : m % 7 < 6
    · have hdiv : (m + 1) / 7 = m / 7 := by omega
      have hmod : (m + 1) % 7 = m % 7 + 1 := by omega
      rw [hdiv, hmod]
      exact sample_next _ hr
    · have hlast : m % 7 = 6 := by omega
      have hdiv : (m + 1) / 7 = m / 7 + 1 := by omega
      have hmod : (m + 1) % 7 = 0 := by omega
      rw [hdiv, hmod, hlast]
      exact sample_round _

theorem own_level_sample :
    (∃ t, exec step {} (sampleActions ++ [.setLogLevel 2 .error (text "down")]) = some t ∧
    t.Kept) ∧ exec step {} (sampleActions.take 3) = some (sampleState 0 3) ∧
      ∃ j, 1 ≤ (sampleState ((3 + j) / 7) ((3 + j) % 7)).written.length := by
  refine ⟨?_, by decide +kernel, ?_⟩
  · have hexec : exec step {} (sampleActions ++ [.setLogLevel 2 .error (text "down")]) =
        some { sampleState 1 0 with
            m_loglevel := .error, calls := [⟨2, .error, text "down", none⟩] } := by
      decide +kernel
    exact ⟨_, hexec, (own_level (.of_exec hexec (by decide +kernel))).1⟩
  · have hrun : Run step Settled {} (sampleActions.take 3) (sampleState 0 3) :=
      .of_exec (by decide +kernel) (by decide +kernel)
    refine (own_level hrun).2 (sample_path 3) rfl (fun k _ => ⟨7 * k + 3, by omega, ?_⟩)
    have hmod : (3 + (7 * k + 3)) % 7 = 6 := by omega
    simp only [hmod]
    trivial

end sample

end KimRpc.Application.Logger
