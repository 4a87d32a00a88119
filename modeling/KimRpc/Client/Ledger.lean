import KimRpc.Client.Channel

/-! The life of one call as its caller should see it, and the channel as the
books of all lives: the table and the batches of the threads say which call is
where, and the events of a call are those of its life. -/

namespace KimRpc.Client

open Library.Tables

inductive Life where
  | unregistered
  | failed (error : Option Reason) (time : ℕ)
  | waiting (deadline : Option ℕ)
  | taken (w : Worker) (taker : Taker) (deadline : Option ℕ)
  | ran (w : Worker) (taker : Taker) (deadline : Option ℕ) (failed : Option Reason) (time : ℕ)
  | freed (taker : Taker) (deadline : Option ℕ) (failed : Option Reason) (time : ℕ)
  | withdrawn (deadline : Option ℕ)
  | refused (deadline : Option ℕ) (error : Option Reason) (time : ℕ)

namespace Life

def history (c : ℕ) : Life → List Event
  | .unregistered => []
  | .failed error time => [.done .callAsync c error time]
  | .waiting d => [.registered c d]
  | .taken _ q d => [.registered c d, .took q c]
  | .ran _ q d f time => [.registered c d, .took q c, .done q c f time]
  | .freed q d f time => [.registered c d, .took q c, .done q c f time, .freed q c]
  | .withdrawn d => [.registered c d, .took .callAsync c, .freed .callAsync c]
  | .refused d error time =>
    [.registered c d, .took .callAsync c, .freed .callAsync c, .done .callAsync c error time]

def pcs : Life → List CallPc
  | .unregistered => [.absent, .preparing, .connecting, .joining, .opening, .registering, .failing]
  | .failed _ _ => [.inDone, .returned]
  | .waiting _ => [.locking, .sending, .undoing, .sent]
  | .taken _ _ _ | .ran _ _ _ _ _ | .freed _ _ _ _ =>
    [.locking, .sending, .undoing, .sent, .returned]
  | .withdrawn _ => [.failing]
  | .refused _ _ _ => [.inDone, .returned]

end Life

def CallPc.Within (pc pc' : CallPc) : Prop := ∀ life : Life, pc ∈ life.pcs → pc' ∈ life.pcs

def Event.call : Event → Option ℕ
  | .registered c _ | .took _ c | .done _ c _ _ | .freed _ c => some c
  | .arrived _ _ => none

def history (c : ℕ) (log : List Event) : List Event := log.filter (fun e => e.call = some c)

lemma history_append (c : ℕ) (log events : List Event) :
    history c (log ++ events) = history c log ++ history c events := List.filter_append ..

lemma history_of_call {c : ℕ} {events : List Event} (h : ∀ e ∈ events, e.call = some c) :
    history c events = events := List.filter_eq_self.mpr (by simpa using h)

lemma history_of_ne {c d : ℕ} {events : List Event} (h : ∀ e ∈ events, e.call = some d)
    (hd : c ≠ d) :
    history c events = [] := by
  apply List.filter_eq_nil_iff.mpr
  intro e he
  simp [h e he, Ne.symm hd]

lemma history_took (q : Taker) {calls : List ℕ} (hn : calls.Nodup) (c : ℕ) :
    history c (calls.map (.took q)) = if c ∈ calls then [.took q c] else [] := by
  have hf : history c (calls.map (.took q)) = (calls.filter (· == c)).map (.took q) := by
    simp only [history, List.filter_map]
    congr 2
    funext d
    simp only [Function.comp_apply, Event.call, Option.some.injEq]
    rfl
  rw [hf, List.filter_beq, hn.count]
  split_ifs <;> simp

def Event.deadlineOf (c : ℕ) : Event → Option (Option ℕ)
  | .registered d deadline => if d = c then some deadline else none
  | _ => none

def Event.takenBy (c : ℕ) : Event → Option Taker
  | .took q d => if d = c then some q else none
  | _ => none

def Event.doneBy (c : ℕ) : Event → Option Taker
  | .done q d _ _ => if d = c then some q else none
  | _ => none

def Event.freedBy (c : ℕ) : Event → Option Taker
  | .freed q d => if d = c then some q else none
  | _ => none

lemma filterMap_history {α : Type} {f : Event → Option α} {c : ℕ} (log : List Event)
    (hf : ∀ e, f e ≠ none → e.call = some c) : log.filterMap f = (history c log).filterMap f := by
  rw [history, List.filterMap_filter]
  congr 1
  funext e
  by_cases he : e.call = some c
  · simp [he]
  · have hn : f e = none := by
      by_contra h
      exact he (hf e h)
    simp [he, hn]

lemma Batch.Done.lookup {b : Batch} (h : b.Done) (id : UInt64) : b.todo.lookup id = none := by
  rw [AList.lookup_eq_none, AList.mem_keys, AList.keys, h.1]
  simp

namespace Channel

def registrations (s : Channel) (c : ℕ) : List (Option ℕ) := s.log.filterMap (Event.deadlineOf c)

def takes (s : Channel) (c : ℕ) : List Taker := s.log.filterMap (Event.takenBy c)

def dones (s : Channel) (c : ℕ) : List Taker := s.log.filterMap (Event.doneBy c)

def frees (s : Channel) (c : ℕ) : List Taker := s.log.filterMap (Event.freedBy c)

structure Books (s : Channel) (life : ℕ → Life) : Prop where
  events : ∀ c, history c s.log = (life c).history c
  table : ∀ id p, s.pending.lookup id = some p ↔
    life p.call = .waiting p.deadline ∧ (s.calls p.call).requestId = id
  todo : ∀ w q id p, ((s.batches w).todo.lookup id = some p ∧ (s.batches w).taker = q) ↔
    life p.call = .taken w q p.deadline ∧ (s.calls p.call).requestId = id
  running : ∀ w q p, ((s.batches w).running = some p ∧ (s.batches w).taker = q) ↔
    ∃ f time, life p.call = .ran w q p.deadline f time
  stands : ∀ c, (s.calls c).pc ∈ (life c).pcs

namespace Books

variable {s t : Channel} {life : ℕ → Life} {c : ℕ}

lemma registrations_eq (h : s.Books life) (c : ℕ) :
    s.registrations c = ((life c).history c).filterMap (Event.deadlineOf c) := by
  rw [registrations, filterMap_history (c := c), h.events]
  rintro (_ | _ | _ | _ | _) <;> simp [Event.deadlineOf, Event.call]

lemma takes_eq (h : s.Books life) (c : ℕ) :
    s.takes c = ((life c).history c).filterMap (Event.takenBy c) := by
  rw [takes, filterMap_history (c := c), h.events]
  rintro (_ | _ | _ | _ | _) <;> simp [Event.takenBy, Event.call]

lemma dones_eq (h : s.Books life) (c : ℕ) :
    s.dones c = ((life c).history c).filterMap (Event.doneBy c) := by
  rw [dones, filterMap_history (c := c), h.events]
  rintro (_ | _ | _ | _ | _) <;> simp [Event.doneBy, Event.call]

lemma frees_eq (h : s.Books life) (c : ℕ) :
    s.frees c = ((life c).history c).filterMap (Event.freedBy c) := by
  rw [frees, filterMap_history (c := c), h.events]
  rintro (_ | _ | _ | _ | _) <;> simp [Event.freedBy, Event.call]

lemma update_pc (h : s.Books life) {call : Call} (ht : t.calls = Function.update s.calls c call)
    (hlog : t.log = s.log) (hpend : t.pending = s.pending) (hb : t.batches = s.batches)
    (hid : call.requestId = (s.calls c).requestId ∨ life c = .unregistered)
    (hpc : (s.calls c).pc.Within call.pc) : t.Books life := by
  have hids : ∀ d, life d ≠ .unregistered → (t.calls d).requestId = (s.calls d).requestId := by
    intro d hd
    by_cases hc : d = c
    · subst hc
      simpa [ht] using hid.resolve_right hd
    · simp [ht, hc]
  constructor
  · simpa only [hlog] using h.events
  · intro id p
    rw [hpend, h.table]
    refine and_congr_right (fun hl => ?_)
    rw [hids p.call (by simp [hl])]
  · intro w q id p
    rw [hb, h.todo]
    refine and_congr_right (fun hl => ?_)
    rw [hids p.call (by simp [hl])]
  · simpa only [hb] using h.running
  · intro d
    by_cases hc : d = c
    · subst hc
      simpa [ht] using hpc _ (h.stands d)
    · simpa [ht, hc] using h.stands d

lemma same_calls (h : s.Books life) (hc : t.calls = s.calls) (hlog : t.log = s.log)
    (hpend : t.pending = s.pending) (hb : t.batches = s.batches) : t.Books life := by
  constructor
  · simpa only [hlog] using h.events
  · simpa only [hpend, hc] using h.table
  · simpa only [hb, hc] using h.todo
  · simpa only [hb] using h.running
  · simpa only [hc] using h.stands

lemma unregistered (h : s.Books life)
    (hpc : (s.calls c).pc ∈ [CallPc.absent, .preparing, .connecting, .joining, .opening,
      .registering]) :
    life c = .unregistered := by
  have hs := h.stands c
  cases hl : life c <;>
    simp only [hl, Life.pcs, List.mem_cons, List.not_mem_nil, or_false] at hs hpc ⊢ <;> grind

lemma pending_call (h : s.Books life) {id : UInt64} {p : Pending}
    (hp : s.pending.lookup id = some p) :
    (s.calls p.call).pc ∈ [CallPc.locking, .sending, .undoing, .sent] ∧
    (s.calls p.call).requestId = id := by
  obtain ⟨hl, hid⟩ := (h.table id p).mp hp
  have hs := h.stands p.call
  rw [hl] at hs
  exact ⟨hs, hid⟩

lemma events_update (h : s.Books life) {l : Life} {events : List Event}
    (he : ∀ e ∈ events, e.call = some c)
    (hl : l.history c = (life c).history c ++ events) (d : ℕ) :
    history d (s.log ++ events) = (Function.update life c l d).history d := by
  rw [history_append, h.events]
  by_cases hd : d = c
  · subst hd
    rw [history_of_call he, Function.update_self, hl]
  · rw [history_of_ne he hd, Function.update_of_ne hd, List.append_nil]

lemma stands_update (h : s.Books life) {l : Life} {call : Call} (hc : call.pc ∈ l.pcs) (d : ℕ) :
    (Function.update s.calls c call d).pc ∈ (Function.update life c l d).pcs := by
  by_cases hd : d = c
  · subst hd
    simpa using hc
  · simpa [hd] using h.stands d

lemma register (h : s.Books life) (hpc : (s.calls c).pc = .registering)
    (hfree : s.pending.lookup (s.calls c).requestId = none) :
    (s.register c).Books (Function.update life c (.waiting s.deadline)) := by
  have hc : life c = .unregistered := h.unregistered (by simp [hpc])
  constructor
  · apply h.events_update
    · simp [Event.call]
    · simp [hc, Life.history]
  · rintro id ⟨d, dl⟩
    have ht := h.table id ⟨d, dl⟩
    simp only [Channel.register, record, goto, setCall]
    grind [AList.lookup_insert, AList.lookup_insert_ne]
  · rintro w q id ⟨d, dl⟩
    have ht := h.todo w q id ⟨d, dl⟩
    simp only [Channel.register, record, goto, setCall]
    grind
  · rintro w q ⟨d, dl⟩
    have ht := h.running w q ⟨d, dl⟩
    simp only [Channel.register, record, goto, setCall]
    grind
  · exact h.stands_update (by simp [Life.pcs])

lemma fail (h : s.Books life) (hpc : (s.calls c).pc = .failing) : ∃ life',
    (s.fail c).Books life' := by
  have hs := h.stands c
  rw [hpc] at hs
  have hl : ∃ l : Life, l.history c = (life c).history c ++
      [.done .callAsync c (s.calls c).error s.now] ∧
      .inDone ∈ l.pcs ∧ (∀ d, l ≠ .waiting d ∧ life c ≠ .waiting d) ∧
      (∀ w q d, l ≠ .taken w q d ∧ life c ≠ .taken w q d) ∧
      ∀ w q d f time, l ≠ .ran w q d f time ∧ life c ≠ .ran w q d f time := by
    cases hlc : life c with
    | unregistered => exact ⟨.failed (s.calls c).error s.now, by simp [Life.history, Life.pcs]⟩
    | withdrawn d => exact ⟨.refused d (s.calls c).error s.now, by simp [Life.history, Life.pcs]⟩
    | _ => simp [hlc, Life.pcs] at hs
  obtain ⟨l, hh, hp, hw, ht, hr⟩ := hl
  refine ⟨Function.update life c l, ?_, ?_, ?_, ?_, ?_⟩
  · exact h.events_update (by simp [Event.call]) hh
  · rintro id ⟨d, dl⟩
    have hd := h.table id ⟨d, dl⟩
    simp only [Channel.fail, record, goto, setCall]
    grind
  · rintro w q id ⟨d, dl⟩
    have hd := h.todo w q id ⟨d, dl⟩
    simp only [Channel.fail, record, goto, setCall]
    grind
  · rintro w q ⟨d, dl⟩
    have hd := h.running w q ⟨d, dl⟩
    simp only [Channel.fail, record, goto, setCall]
    grind
  · exact h.stands_update hp

lemma undo (h : s.Books life) (hpc : (s.calls c).pc = .undoing)
    (hown : ∀ p, s.pending.lookup (s.calls c).requestId = some p → p.call = c) :
    ∃ life', (s.undo c).Books life' := by
  have hs := h.stands c
  rw [hpc] at hs
  cases hp : s.pending.lookup (s.calls c).requestId with
  | none =>
    have hu : s.undo c = s.goto c .returned := by simp [Channel.undo, hp]
    have hl : ∀ d, life c ≠ .waiting d := by
      intro d hd
      have hn := (h.table (s.calls c).requestId ⟨c, d⟩).mpr ⟨hd, rfl⟩
      simp [hp] at hn
    rw [hu]
    refine ⟨life, h.events, ?_, ?_, h.running, ?_⟩
    · rintro id ⟨d, dl⟩
      have hd := h.table id ⟨d, dl⟩
      simp only [goto, setCall]
      grind
    · rintro w q id ⟨d, dl⟩
      have hd := h.todo w q id ⟨d, dl⟩
      simp only [goto, setCall]
      grind
    · intro d
      have hd := h.stands d
      by_cases hdc : d = c
      · subst hdc
        cases hld : life d <;> simp_all [goto, setCall, Life.pcs]
      · simpa [goto, setCall, hdc] using hd
  | some p =>
    obtain ⟨d, dl⟩ := p
    have hc := hown _ hp
    simp only at hc
    subst hc
    have hl := ((h.table _ _).mp hp).1
    simp only at hl
    have hu : s.undo d = { (s.goto d .failing).record [.took .callAsync d, .freed .callAsync d] with
        pending := s.pending.erase (s.calls d).requestId } := by simp [Channel.undo, hp]
    rw [hu]
    refine ⟨Function.update life d (.withdrawn dl), ?_, ?_, ?_, ?_, ?_⟩
    · apply h.events_update
      · simp [Event.call]
      · simp [hl, Life.history]
    · rintro id ⟨e, el⟩
      have he := h.table id ⟨e, el⟩
      simp only [record, goto, setCall]
      grind [AList.lookup_erase, AList.lookup_erase_ne]
    · rintro w q id ⟨e, el⟩
      have he := h.todo w q id ⟨e, el⟩
      simp only [record, goto, setCall]
      grind
    · rintro w q ⟨e, el⟩
      have he := h.running w q ⟨e, el⟩
      simp only [record, goto, setCall]
      grind
    · exact h.stands_update (by simp [Life.pcs])

lemma runDone (h : s.Books life) {w : Worker} {id : UInt64} {p : Pending}
    (hrun : (s.batches w).running = none)
    (hp : (s.batches w).todo.lookup id = some p) :
    (s.runDone w id).Books (Function.update life p.call
      (.ran w (s.batches w).taker p.deadline (s.batches w).failed s.now)) := by
  obtain ⟨hl, hid⟩ := (h.todo w _ id p).mp ⟨hp, rfl⟩
  have hu : s.runDone w id = (s.setBatch w { s.batches w with
      todo := (s.batches w).todo.erase id, running := some p }).record
        [.done (s.batches w).taker p.call (s.batches w).failed s.now] := by
          simp [Channel.runDone, hp]
  rw [hu]
  obtain ⟨c, dl⟩ := p
  constructor
  · apply h.events_update
    · simp [Event.call]
    · simp [hl, Life.history]
  · rintro id' ⟨d, dl'⟩
    have hd := h.table id' ⟨d, dl'⟩
    simp only [record, setBatch]
    grind
  · rintro w' q id' ⟨d, dl'⟩
    have hd := h.todo w' q id' ⟨d, dl'⟩
    simp only [record, setBatch]
    grind [AList.lookup_erase, AList.lookup_erase_ne]
  · rintro w' q ⟨d, dl'⟩
    have hd := h.running w' q ⟨d, dl'⟩
    simp only [record, setBatch]
    by_cases hdc : d = c
    · subst hdc
      have hnone : ∀ f time, life d ≠ .ran w' q dl' f time := by simp [hl]
      by_cases hw : w' = w
      · subst hw
        simp only [Function.update_self, Life.ran.injEq, Option.some.injEq, Pending.mk.injEq]
        grind
      · grind
    · grind
  · intro d
    have hs := h.stands d
    by_cases hd : d = c
    · subst hd
      simpa [hl, Life.pcs, record, setBatch] using hs
    · simpa [hd, record, setBatch] using hs

lemma free (h : s.Books life) {w : Worker} {p : Pending} (hrun : (s.batches w).running = some p) :
    ∃ life', (s.free w).Books life' := by
  obtain ⟨f, time, hl⟩ := (h.running w _ p).mp ⟨hrun, rfl⟩
  have hu : s.free w = (s.setBatch w { s.batches w with running := none }).record
      [.freed (s.batches w).taker p.call] := by simp [Channel.free, hrun]
  rw [hu]
  obtain ⟨c, dl⟩ := p
  refine ⟨Function.update life c (.freed (s.batches w).taker dl f time), ?_, ?_, ?_, ?_, ?_⟩
  · apply h.events_update
    · simp [Event.call]
    · simp [hl, Life.history]
  · rintro id' ⟨d, dl'⟩
    have hd := h.table id' ⟨d, dl'⟩
    simp only [record, setBatch]
    grind
  · rintro w' q id' ⟨d, dl'⟩
    have hd := h.todo w' q id' ⟨d, dl'⟩
    simp only [record, setBatch]
    grind
  · rintro w' q ⟨d, dl'⟩
    have hd := h.running w' q ⟨d, dl'⟩
    simp only [record, setBatch]
    grind
  · intro d
    have hs := h.stands d
    by_cases hd : d = c
    · subst hd
      simpa [hl, Life.pcs, record, setBatch] using hs
    · simpa [hd, record, setBatch] using hs

def takenLife (s : Channel) (life : ℕ → Life) (w : Worker) (q : Taker) (taken : PendingMap)
    (c : ℕ) : Life :=
  match life c with
  | .waiting d =>
    if taken.lookup (s.calls c).requestId = some ⟨c, d⟩ then .taken w q d else .waiting d
  | l => l

lemma takenLife_eq (s : Channel) (life : ℕ → Life) (w : Worker) (q : Taker) (taken : PendingMap)
    (c : ℕ) :
    (∃ d, life c = .waiting d ∧ taken.lookup (s.calls c).requestId = some ⟨c, d⟩ ∧
      takenLife s life w q taken c = .taken w q d) ∨
    takenLife s life w q taken c = life c ∧
      ∀ d, life c = .waiting d → taken.lookup (s.calls c).requestId ≠ some ⟨c, d⟩ := by
  cases hl : life c with
  | waiting d =>
    by_cases hd : taken.lookup (s.calls c).requestId = some ⟨c, d⟩
    · exact .inl ⟨d, rfl, hd, by simp [takenLife, hl, hd]⟩
    · exact .inr ⟨by simp [takenLife, hl, hd], by rintro e ⟨⟩; exact hd⟩
  | _ => exact .inr ⟨by simp [takenLife, hl], by simp⟩

lemma taken_calls (h : s.Books life) {taken rest : PendingMap}
    (hsplit : Splits s.pending taken rest) :
    (taken.entries.map (fun e => e.2.call)).Nodup ∧
      ∀ c, c ∈ taken.entries.map (fun e => e.2.call) ↔
        ∃ d, life c = .waiting d ∧ taken.lookup (s.calls c).requestId = some ⟨c, d⟩ := by
  have hentry : ∀ e ∈ taken.entries, life e.2.call = .waiting e.2.deadline ∧
      (s.calls e.2.call).requestId = e.1 :=
    fun e he => (h.table e.1 e.2).mp (hsplit.taken (mem_lookup_entries.mpr he))
  constructor
  · apply List.Nodup.map_on
    · rintro ⟨i, c, d⟩ he ⟨j, c', d'⟩ he' hc
      obtain ⟨hl, hid⟩ := hentry _ he
      obtain ⟨hl', hid'⟩ := hentry _ he'
      grind
    · exact taken.nodupKeys.nodup
  · intro c
    rw [List.mem_map]
    constructor
    · rintro ⟨⟨i, c', d⟩, he, rfl⟩
      obtain ⟨hl, hid⟩ := hentry _ he
      simp only at hl hid ⊢
      exact ⟨d, hl, by rw [hid]; exact mem_lookup_entries.mpr he⟩
    · rintro ⟨d, -, hd⟩
      exact ⟨_, mem_lookup_entries.mp hd, rfl⟩

lemma take (h : s.Books life) {w : Worker} (q : Taker) (f : Option Reason) {taken rest : PendingMap}
    (hdone : (s.batches w).Done) (hsplit : Splits s.pending taken rest) :
    (s.take w q f taken rest).Books (takenLife s life w q taken) := by
  obtain ⟨hnodup, hmem⟩ := h.taken_calls hsplit
  have hempty := hdone.lookup
  have hfree : ∀ c q' d, life c ≠ .taken w q' d := by
    intro c q' d hl
    have ht := (h.todo w q' (s.calls c).requestId ⟨c, d⟩).mpr ⟨hl, rfl⟩
    simp [hempty] at ht
  have hidle : ∀ c q' d f' time, life c ≠ .ran w q' d f' time := by
    intro c q' d f' time hl
    have ht := (h.running w q' ⟨c, d⟩).mpr ⟨f', time, hl⟩
    simp [hdone.2] at ht
  constructor
  · intro c
    have hm : taken.entries.map (fun e => Event.took q e.2.call) =
        (taken.entries.map (fun e => e.2.call)).map (Event.took q) := by simp
    simp only [Channel.take, record, history_append, hm]
    rw [history_took q hnodup c, setBatch, h.events]
    rcases takenLife_eq s life w q taken c with ⟨d, hl, hd, hn⟩ | ⟨hn, hno⟩
    · rw [if_pos ((hmem c).mpr ⟨d, hl, hd⟩), hn, hl]
      rfl
    · rw [if_neg, hn, List.append_nil]
      rw [hmem]
      rintro ⟨d, hl, hd⟩
      exact hno d hl hd
  · rintro id ⟨c, d⟩
    have ht := h.table id ⟨c, d⟩
    have hs := hsplit.entry id ⟨c, d⟩
    have ha := hsplit.apart id ⟨c, d⟩ ⟨c, d⟩
    simp only [Channel.take, record, setBatch] at *
    rcases takenLife_eq s life w q taken c with ⟨e, hl, he, hn⟩ | ⟨hn, hno⟩ <;> grind
  · rintro w' q' id ⟨c, d⟩
    have ht := h.todo w' q' id ⟨c, d⟩
    have hs := h.table id ⟨c, d⟩
    have ha : taken.lookup id = some ⟨c, d⟩ → s.pending.lookup id = some ⟨c, d⟩ := hsplit.taken
    simp only [Channel.take, record, setBatch] at *
    rcases takenLife_eq s life w q taken c with ⟨e, hl, he, hn⟩ | ⟨hn, hno⟩ <;> grind
  · rintro w' q' ⟨c, d⟩
    have ht := h.running w' q' ⟨c, d⟩
    simp only [Channel.take, record, setBatch] at *
    rcases takenLife_eq s life w q taken c with ⟨e, hl, he, hn⟩ | ⟨hn, hno⟩ <;> grind
  · intro c
    have hc := h.stands c
    simp only [Channel.take, record, setBatch] at *
    rcases takenLife_eq s life w q taken c with ⟨e, hl, he, hn⟩ | ⟨hn, hno⟩
    · rw [hl] at hc
      rw [hn]
      exact List.mem_append_left [.returned] hc
    · rwa [hn]

end Books

end Channel

end KimRpc.Client
