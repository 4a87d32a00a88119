import KimRpc.Discovery.WatchStream
import KimRpc.Library.Resumption
import KimRpc.Library.Runs

/-! The watch of a prefix over any number of connections: what the store sends,
where a connection breaks, and the revision from which the next one goes on. -/

namespace KimRpc.Discovery.Watch

open Library.Resumption Library.Runs Wire

structure Registry where
  revision : ℤ
  history : List Modification
  ordered : history.Pairwise (·.modRevision ≤ ·.modRevision)
  reached : ∀ m ∈ history, m.modRevision ≤ revision
  counted : 0 ≤ revision ∧ revision < 2 ^ 63 - 1

def Registry.commit (R : Registry) (events : List WatchEvent) : Option Registry :=
  if h : R.revision + 1 < 2 ^ 63 - 1 then
    some {
      revision := R.revision + 1
      history := R.history ++ events.map (Modification.mk (R.revision + 1))
      ordered := by
        refine List.pairwise_append.mpr ⟨R.ordered, ?_, ?_⟩
        · exact List.pairwise_map.mpr (List.pairwise_of_forall (fun _ _ => le_rfl))
        · intro m hm m' hm'
          obtain ⟨ev, -, rfl⟩ := List.mem_map.mp hm'
          exact (R.reached m hm).trans (Int.le_add_one le_rfl)
      reached := by
        intro m hm
        rcases List.mem_append.mp hm with hm | hm
        · exact (R.reached m hm).trans (Int.le_add_one le_rfl)
        · obtain ⟨ev, -, rfl⟩ := List.mem_map.mp hm
          exact le_rfl
      counted := ⟨Int.add_nonneg R.counted.1 Int.one_nonneg, h⟩ }
  else none

/-- The lines sent on the current connection, the number of bytes of them handed
to `watchWrite`, and the variables of `WatchPrefixBlocking`. -/
structure State where
  registry : Registry
  frames : List Frame := []
  received : ℕ := 0
  resumeRev : ℤ
  ctx : WatchCtx
  stop : Bool := false
  running : Bool := true

namespace State

def sent (s : State) : Bytes := s.frames.flatMap Frame.wire

def unread (s : State) : Bytes := s.sent.drop s.received

def served (s : State) : List Modification := s.frames.flatMap Frame.events

def owed (p : KeyPrefix) (s : State) : List Modification := watched p s.resumeRev s.registry.history

def whole (s : State) : List Frame := s.frames.take ((s.sent.take s.received).count 10)

end State

inductive Action where
  | commit (events : List WatchEvent)
  | send (events : ℕ) (line : Bytes)
  | receive (bytes : ℕ)
  | disconnect
  | stop
  deriving DecidableEq

def connect (calls : List (WatchEvent × ℤ)) (resumeRev : ℤ) : WatchCtx where
  calls := calls
  lastRevision := resumeRev - 1

/-- The end of a turn of the loop of `WatchPrefixBlocking`. -/
def reconnect (s : State) : State :=
  let resumeRev := if s.ctx.lastRevision ≥ s.resumeRev then s.ctx.lastRevision + 1 else s.resumeRev
  { s with frames := [], received := 0, resumeRev, ctx := connect s.ctx.calls resumeRev }

def State.took (s : State) (ctx : WatchCtx) (taken : ℕ) :
    State := { s with ctx, received := s.received + taken }

def step (parse : Bytes → Option Json) (p : KeyPrefix) (s : State) : Action → Option State
  | .commit events => (s.registry.commit events).map (fun R => { s with registry := R })
  | .send n line =>
    let f : Frame := ⟨line, s.registry.revision, ((s.owed p).drop s.served.length).take n⟩
    if s.running ∧ f.Reads parse then some { s with frames := s.frames ++ [f] } else none
  | .receive n =>
    if s.running then
      match watchWrite parse s.stop (s.unread.take n) s.ctx with
      | .ok (ctx, taken) => some (s.took ctx taken)
      | .error ctx => some { s with ctx, running := false }
    else none
  | .disconnect =>
    if s.running then
      if s.stop then some { s with running := false } else some (reconnect s)
    else none
  | .stop => some { s with stop := true }

def start (R : Registry) (startRev : ℤ) : State where
  registry := R
  resumeRev := startRev
  ctx := connect [] startRev

section journal

abbrev Journal := List Modification

def note (s : State) (a : Action) (t : State) (g : Journal) : Journal :=
  match a with
  | .disconnect => if t.running then g ++ s.whole.flatMap Frame.events else g
  | _ => g

def handed (s : State) (g : Journal) : List Modification := g ++ s.whole.flatMap Frame.events

/-- The callback has been passed the events of the modifications handed over, and of
these each comes after all modifications of the prefix with lower revisions. -/
def InOrder (p : KeyPrefix) (startRev : ℤ) (s : State) (g : Journal) : Prop :=
  s.ctx.passed = (handed s g).map Modification.event ∧
  ∀ ms m ms', handed s g = ms ++ m :: ms' → ∀ m' ∈ s.registry.history, p.bytes <+: m'.event.key →
    startRev ≤ m'.modRevision → m'.modRevision < m.modRevision → m' ∈ ms

/-- A connection does not break where a whole line with events has a revision that an event still to
come has too. -/
def Undivided (p : KeyPrefix) (s : State) (a : Action) : Prop :=
  a = .disconnect → s.stop = false → ∀ f ∈ s.whole, f.events ≠ [] →
    ∀ m ∈ (s.owed p).drop (s.whole.flatMap Frame.events).length, f.revision < m.modRevision

instance (p : KeyPrefix) (s : State) (a : Action) : Decidable (Undivided p s a) :=
  inferInstanceAs (Decidable (_ → _ → ∀ f ∈ s.whole, _ → ∀ m ∈ _, _))

end journal

section invariant

variable {parse : Bytes → Option Json} {p : KeyPrefix} {startRev : ℤ} {s t : State} {g : Journal}
    {a : Action}

structure Sent (parse : Bytes → Option Json) (p : KeyPrefix) (s : State) : Prop where
  served : s.served <+: s.owed p
  reads : ∀ f ∈ s.frames, f.Reads parse ∧ 0 ≤ f.revision ∧ f.revision < 2 ^ 63
  revision_le : ∀ f ∈ s.frames, f.revision ≤ s.registry.revision

def Handled (s : State) (g : Journal) (done : List Frame) : Prop :=
  ∃ calls, calls.map Prod.fst = g.map Modification.event ∧
    s.ctx = { handledAll done (connect calls s.resumeRev) with buf := s.ctx.buf }

structure Reading (s : State) (g : Journal) : Prop where
  received_le : s.received ≤ s.sent.length
  taken : s.sent.take s.received = s.whole.flatMap Frame.wire ++ s.ctx.buf
  pending : 10 ∉ s.ctx.buf
  handled : Handled s g s.whole

structure Kept (p : KeyPrefix) (startRev : ℤ) (s : State) (g : Journal) : Prop where
  timely : Timely Modification.modRevision (watched p startRev s.registry.history) g
  complete : Complete Modification.modRevision (watched p startRev s.registry.history) g s.resumeRev
  start_le : startRev ≤ s.resumeRev
  resume_le : s.resumeRev ≤ max startRev (s.registry.revision + 1)

structure Sound (parse : Bytes → Option Json) (p : KeyPrefix) (startRev : ℤ) (s : State)
    (g : Journal) : Prop where
  sent : Sent parse p s
  reading : Reading s g
  kept : Kept p startRev s g

lemma sound_start (R : Registry) : Sound parse p startRev (start R startRev) [] where
  sent := ⟨List.nil_prefix, by simp [start], by simp [start]⟩
  reading := ⟨le_rfl, rfl, by simp [start, connect], [], rfl, rfl⟩
  kept := {
    timely := timely_nil
    complete := by
      intro m hm hlt
      exact absurd hlt (not_lt.mpr (mem_watched.mp hm).2.2)
    start_le := le_rfl
    resume_le := le_max_left _ _ }

lemma owed_eq (h : startRev ≤ s.resumeRev) :
    s.owed p = (watched p startRev s.registry.history).filter (s.resumeRev ≤ ·.modRevision) := by
  rw [State.owed, watched, watched, List.filter_filter]
  apply List.filter_congr
  intro m _
  simp only [← Bool.decide_and]
  apply decide_eq_decide.mpr
  constructor
  · rintro ⟨hc, hr⟩
    exact ⟨hr, hc, h.trans hr⟩
  · rintro ⟨hr, hc, -⟩
    exact ⟨hc, hr⟩

section reading

variable {done rest : List Frame}

lemma sent_eq (hf : s.frames = done ++ rest)
    (hbuf : s.ctx.buf ++ s.unread = rest.flatMap Frame.wire) :
    s.sent.take s.received = done.flatMap Frame.wire ++ s.ctx.buf := by
  have hsplit : s.sent.take s.received ++ s.unread = done.flatMap Frame.wire ++ s.ctx.buf ++
      s.unread := by
    rw [State.unread, List.take_append_drop, List.append_assoc, ← State.unread, hbuf, State.sent,
      hf, List.flatMap_append]
  exact List.append_cancel_right hsplit

lemma whole_eq (hs : Sent parse p s) (hf : s.frames = done ++ rest)
    (hbuf : s.ctx.buf ++ s.unread = rest.flatMap Frame.wire) (hnl : 10 ∉ s.ctx.buf) :
    s.whole = done := by
  have hlines : ∀ f ∈ done, 10 ∉ f.line := fun f hmem => (hs.reads f (by simp [hf, hmem])).1.2.1
  rw [State.whole, sent_eq hf hbuf, List.count_append, List.count_eq_zero.mpr hnl,
    count_wire hlines, hf,
    Nat.add_zero, List.take_left]

lemma Sent.took (h : Sent parse p s) (ctx : WatchCtx) (n : ℕ) : Sent parse p (s.took ctx n) :=
  ⟨h.served, h.reads, h.revision_le⟩

lemma Reading.split (h : Reading s g) : ∃ rest, s.frames = s.whole ++ rest ∧
    s.ctx.buf ++ s.unread = rest.flatMap Frame.wire := by
  have hframes : s.frames = s.whole ++ s.frames.drop ((s.sent.take s.received).count 10) :=
    (List.take_append_drop _ _).symm
  refine ⟨_, hframes, ?_⟩
  have hsent : s.whole.flatMap Frame.wire ++ (s.ctx.buf ++ s.unread) = s.sent := by
    rw [← List.append_assoc, ← h.taken, State.unread, List.take_append_drop]
  rw [State.sent, hframes, List.flatMap_append] at hsent
  exact List.append_cancel_left hsent

lemma Reading.of_split (hs : Sent parse p s) (hle : s.received ≤ s.sent.length)
    (hf : s.frames = done ++ rest)
    (hbuf : s.ctx.buf ++ s.unread = rest.flatMap Frame.wire) (hnl : 10 ∉ s.ctx.buf)
    (hctx : Handled s g done) : Reading s g := by
  obtain rfl := whole_eq hs hf hbuf hnl
  exact ⟨hle, sent_eq hf hbuf, hnl, hctx⟩

lemma unread_take (s : State) (n : ℕ) :
    s.sent.drop (s.received + (s.unread.take n).length) = s.unread.drop n := by
  rw [← List.drop_drop, ← State.unread, List.length_take]
  rcases le_total n s.unread.length with hle | hle
  · rw [Nat.min_eq_left hle]
  · rw [Nat.min_eq_right hle, List.drop_length, List.drop_eq_nil_of_le hle]

lemma Sound.write (h : Sound parse p startRev s g) (n : ℕ) :
    ∃ ctx, watchWrite parse false (s.unread.take n) s.ctx = .ok (ctx, (s.unread.take n).length) ∧
      Reading (s.took ctx (s.unread.take n).length) g := by
  obtain ⟨pending, hframes, hbuf⟩ := h.reading.split
  have hreads : ∀ f ∈ pending, f.Reads parse ∧ 0 ≤ f.revision ∧ f.revision < 2 ^ 63 :=
    fun f hf => h.sent.reads f (by simp [hframes, hf])
  have hstream : (s.ctx.buf ++ s.unread.take n) ++ s.unread.drop n =
      pending.flatMap Frame.wire := by
    rw [List.append_assoc, List.take_append_drop, hbuf]
  obtain ⟨done, rest, buf, rfl, hdrain, hrest, hnl⟩ := drainLines_frames hreads hstream s.ctx
  have hlen : s.received + (s.unread.take n).length ≤ s.sent.length := by
    have hle := h.reading.received_le
    rw [List.length_take, State.unread, List.length_drop]
    omega
  refine ⟨{ handledAll done s.ctx with buf := buf }, ?_, ?_⟩
  · rw [watchWrite, if_neg Bool.false_ne_true, hdrain]
    rfl
  · refine Reading.of_split (h.sent.took _ _) hlen (hframes.trans (List.append_assoc _ _ _).symm) ?_
      hnl ?_
    · exact (congrArg (buf ++ ·) (unread_take s n)).trans hrest
    · obtain ⟨calls, hcalls, hctx⟩ := h.reading.handled
      refine ⟨calls, hcalls, ?_⟩
      change ({ handledAll done s.ctx with buf := buf } : WatchCtx) = _
      rw [hctx, handledAll_buf, handledAll_append]
      rfl

lemma Sound.took (h : Sound parse p startRev s g) {ctx : WatchCtx} {n : ℕ}
    (hr : Reading (s.took ctx n) g) :
    Sound parse p startRev (s.took ctx n) g :=
  ⟨h.sent.took ctx n, hr, ⟨h.kept.timely, h.kept.complete, h.kept.start_le, h.kept.resume_le⟩⟩

lemma Sound.receive (h : Sound parse p startRev s g) {n : ℕ}
    (hs : step parse p s (.receive n) = some t) :
    Sound parse p startRev t g := by
  rw [step, Option.ite_none_right_eq_some] at hs
  obtain ⟨hrun, hs⟩ := hs
  cases hstop : s.stop with
  | true =>
    rw [hstop, watchWrite, if_pos rfl] at hs
    cases hs
    exact h
  | false =>
    obtain ⟨ctx, hwrite, hreading⟩ := h.write n
    rw [hstop, hwrite] at hs
    cases hs
    exact h.took hreading

lemma Sound.send (h : Sound parse p startRev s g) {n : ℕ} {line : Bytes}
    (hs : step parse p s (.send n line) = some t) : Sound parse p startRev t g := by
  rw [step] at hs
  obtain ⟨f, hf⟩ : ∃ f : Frame,
      f = ⟨line, s.registry.revision, ((s.owed p).drop s.served.length).take n⟩ := ⟨_, rfl⟩
  simp only [← hf, Option.ite_none_right_eq_some] at hs
  obtain ⟨⟨hrun, hreads⟩, hs⟩ := hs
  obtain ⟨rest, howed⟩ := h.sent.served
  have hcounted := s.registry.counted
  have hevents : f.events = rest.take n := by rw [hf, ← howed, List.drop_left]
  have hrevision : f.revision = s.registry.revision := by rw [hf]
  obtain ⟨pending, hframes, hbuf⟩ := h.reading.split
  cases hs
  have hsent : Sent parse p { s with frames := s.frames ++ [f] } := by
    refine ⟨?_, ?_, ?_⟩
    · change (s.frames ++ [f]).flatMap Frame.events <+: s.owed p
      rw [← howed, List.flatMap_append, List.flatMap_singleton, hevents]
      exact (List.prefix_append_right_inj _).mpr (List.take_prefix _ _)
    · intro f' hf'
      rcases List.mem_append.mp hf' with hf' | hf'
      · exact h.sent.reads f' hf'
      · rw [List.mem_singleton.mp hf']
        exact ⟨hreads, by omega⟩
    · intro f' hf'
      rcases List.mem_append.mp hf' with hf' | hf'
      · exact h.sent.revision_le f' hf'
      · rw [List.mem_singleton.mp hf']
        exact hrevision.le
  have hwire : (s.frames ++ [f]).flatMap Frame.wire = s.sent ++ f.wire := by simp [State.sent]
  refine ⟨hsent, ?_, ⟨h.kept.timely, h.kept.complete, h.kept.start_le, h.kept.resume_le⟩⟩
  refine Reading.of_split hsent ?_ ((congrArg (· ++ [f]) hframes).trans (List.append_assoc _ _ _))
    ?_
    h.reading.pending h.reading.handled
  · change s.received ≤ ((s.frames ++ [f]).flatMap Frame.wire).length
    rw [hwire, List.length_append]
    exact h.reading.received_le.trans (Nat.le_add_right _ _)
  · change s.ctx.buf ++ ((s.frames ++ [f]).flatMap Frame.wire).drop s.received = _
    rw [hwire, List.drop_append_of_le_length h.reading.received_le, ← List.append_assoc,
      ← State.unread, hbuf,
      List.flatMap_append, List.flatMap_singleton]

end reading

lemma watched_append (r : ℤ) (ms ms' : List Modification) :
    watched p r (ms ++ ms') = watched p r ms ++ watched p r ms' :=
  List.filter_append _ _

lemma commit_shape {R R' : Registry} {events : List WatchEvent} (h : R.commit events = some R') :
    R'.revision = R.revision + 1 ∧ ∃ new, R'.history = R.history ++ new ∧
    ∀ m ∈ new, m.modRevision = R.revision + 1 := by
  rw [Registry.commit] at h
  split at h
  · cases h
    refine ⟨rfl, _, rfl, fun m hm => ?_⟩
    obtain ⟨ev, -, rfl⟩ := List.mem_map.mp hm
    rfl
  · cases h

lemma Sound.commit (h : Sound parse p startRev s g) {events : List WatchEvent}
    (hs : step parse p s (.commit events) = some t) : Sound parse p startRev t g := by
  rw [step, Option.map_eq_some_iff] at hs
  obtain ⟨R, hR, rfl⟩ := hs
  obtain ⟨hrevision, new, hhistory, hnew⟩ := commit_shape hR
  have hlog : watched p startRev R.history = watched p startRev s.registry.history ++
      watched p startRev new := by
    rw [hhistory, watched_append]
  have howed : s.owed p <+: watched p s.resumeRev R.history := by
    rw [hhistory, watched_append]
    exact List.prefix_append _ _
  have hresume := h.kept.resume_le
  refine ⟨⟨h.sent.served.trans howed, h.sent.reads, ?_⟩,
    ⟨h.reading.received_le, h.reading.taken, h.reading.pending,
    h.reading.handled⟩, ⟨?_, ?_, h.kept.start_le, ?_⟩⟩
  · intro f hf
    have hle := h.sent.revision_le f hf
    change f.revision ≤ R.revision
    omega
  · change Timely _ (watched p startRev R.history) g
    rw [hlog]
    apply h.kept.timely.grow
    intro m hm m' hm'
    have hle := s.registry.reached m (mem_watched.mp hm).1
    have heq := hnew m' (mem_watched.mp hm').1
    omega
  · change Complete _ (watched p startRev R.history) g s.resumeRev
    rw [hlog]
    apply h.kept.complete.grow
    intro m hm
    obtain ⟨hmem, -, hstart⟩ := mem_watched.mp hm
    have heq := hnew m hmem
    omega
  · change s.resumeRev ≤ max startRev (R.revision + 1)
    omega

lemma reconnect_revision (h : Reading s g) :
    (reconnect s).resumeRev = s.ctx.lastRevision + 1 ∧ ∀ r : ℤ, s.ctx.lastRevision ≤ r ↔
      s.resumeRev - 1 ≤ r ∧ ∀ f ∈ s.whole, f.events ≠ [] → f.revision ≤ r := by
  have hle (r : ℤ) : s.ctx.lastRevision ≤ r ↔ s.resumeRev - 1 ≤ r ∧ ∀ f ∈ s.whole, f.events ≠ [] →
      f.revision ≤ r := by
    obtain ⟨calls, -, hctx⟩ := h.handled
    rw [hctx]
    exact handledAll_revision_le s.whole _ r
  refine ⟨?_, hle⟩
  have hlow := ((hle _).mp le_rfl).1
  by_cases hpast : s.ctx.lastRevision ≥ s.resumeRev
  · exact if_pos hpast
  · refine (if_neg hpast).trans ?_
    omega

lemma whole_passed (h : Reading s g) : s.ctx.passed = (handed s g).map Modification.event := by
  obtain ⟨calls, hcalls, hctx⟩ := h.handled
  rw [hctx, handed, List.map_append, ← hcalls]
  exact handledAll_passed s.whole _

lemma whole_served (h : Sent parse p s) : s.whole.flatMap Frame.events <+: s.owed p := by
  refine List.IsPrefix.trans ?_ h.served
  obtain ⟨fs, hfs⟩ := List.take_prefix ((s.sent.take s.received).count 10) s.frames
  rw [State.served, ← hfs, List.flatMap_append]
  exact List.prefix_append _ _

lemma Sound.handed (h : Sound parse p startRev s g) :
    Timely Modification.modRevision (watched p startRev s.registry.history) (handed s g) := by
  refine h.kept.timely.segment (s.registry.ordered.filter _) h.kept.complete ?_
  rw [← owed_eq h.kept.start_le]
  exact whole_served h.sent

lemma Sound.reconnect (h : Sound parse p startRev s g) (hstop : s.stop = false)
    (hok : Undivided p s .disconnect) :
    Sound parse p startRev (reconnect s) (Watch.handed s g) := by
  obtain ⟨hrevision, hle⟩ := reconnect_revision h.reading
  obtain ⟨rest, hrest⟩ := whole_served h.sent
  have hstart := h.kept.start_le
  have hlow := ((hle _).mp le_rfl).1
  have hresume := h.kept.resume_le
  refine ⟨⟨List.nil_prefix, by simp [Watch.reconnect], by simp [Watch.reconnect]⟩, ?_,
    ⟨h.handed, ?_, ?_, ?_⟩⟩
  · exact ⟨le_rfl,
      rfl, by simp [Watch.reconnect, connect], s.ctx.calls, whole_passed h.reading, rfl⟩
  · rw [hrevision]
    refine h.kept.complete.segment ((owed_eq hstart).symm.trans hrest.symm) ?_
    intro m hm
    have howed : m ∈ s.owed p := by
      rw [← hrest]
      exact List.mem_append_right _ hm
    have hfrom := (mem_watched.mp howed).2.2
    have hdrop : (s.owed p).drop (s.whole.flatMap Frame.events).length = rest := by
      rw [← hrest, List.drop_left]
    have hlast : s.ctx.lastRevision ≤ m.modRevision - 1 := by
      refine (hle _).mpr ⟨by omega, fun f hf hne => ?_⟩
      have hlt := hok rfl hstop f hf hne m (hdrop ▸ hm)
      omega
    omega
  · rw [hrevision]
    omega
  · change (Watch.reconnect s).resumeRev ≤ max startRev (s.registry.revision + 1)
    rw [hrevision]
    have hlast : s.ctx.lastRevision ≤ max (startRev - 1) s.registry.revision := by
      refine (hle _).mpr ⟨by omega, fun f hf _ => ?_⟩
      exact (h.sent.revision_le f (List.mem_of_mem_take hf)).trans (le_max_right _ _)
    omega

lemma Sound.flags (h : Sound parse p startRev s g) (stop running : Bool) :
    Sound parse p startRev { s with stop, running } g :=
  ⟨⟨h.sent.served, h.sent.reads, h.sent.revision_le⟩,
    ⟨h.reading.received_le, h.reading.taken, h.reading.pending,
    h.reading.handled⟩, ⟨h.kept.timely, h.kept.complete, h.kept.start_le, h.kept.resume_le⟩⟩

lemma Sound.step (h : Sound parse p startRev s g) (hok : Undivided p s a)
    (hs : Watch.step parse p s a = some t) :
    Sound parse p startRev t (note s a t g) := by
  cases a with
  | commit events => exact h.commit hs
  | send n line => exact h.send hs
  | receive n => exact h.receive hs
  | disconnect =>
    rw [Watch.step, Option.ite_none_right_eq_some] at hs
    obtain ⟨hrun, hs⟩ := hs
    cases hstop : s.stop with
    | true =>
      rw [hstop, if_pos rfl] at hs
      cases hs
      exact h.flags true false
    | false =>
      rw [hstop, if_neg Bool.false_ne_true] at hs
      cases hs
      have hnote : note s .disconnect (Watch.reconnect s) g = Watch.handed s g := if_pos hrun
      rw [hnote]
      exact h.reconnect hstop hok
  | stop =>
    cases hs
    exact h.flags true s.running

lemma Sound.inOrder (h : Sound parse p startRev s g) : InOrder p startRev s g := by
  refine ⟨whole_passed h.reading, ?_⟩
  intro ms m ms' hsplit m' hm' hkey hstart hlt
  exact (h.handed ms m ms' hsplit).2 m' (mem_watched.mpr ⟨hm', hkey, hstart⟩) hlt

abbrev journaled (parse : Bytes → Option Json) (p : KeyPrefix) :
    State × Journal → Action → Option (State × Journal) :=
  noted (step parse p) note

end invariant

theorem events_in_order (parse : Bytes → Option Json) (p : KeyPrefix) {R : Registry} {startRev : ℤ}
    {as : List Action}
    {t : State} {g : Journal}
    (h : Run (journaled parse p) (fun x a => Undivided p x.1 a) (start R startRev, []) as (t, g)) :
    InOrder p startRev t g := by
  have hsound : Sound parse p startRev t g :=
    h.noted_invariant (sound_start R) (fun _ _ _ _ hu hok hs => hu.step hok hs)
  exact hsound.inOrder

section samples

def sampleKey : KeyPrefix := ⟨text "/", by decide⟩

def putA : WatchEvent := ⟨.put, text "/a", []⟩
def removeA : WatchEvent := ⟨.delete, text "/a", []⟩
def putB : WatchEvent := ⟨.put, text "/b", []⟩

def sampleRegistry : Registry where
  revision := 3
  history := [⟨2, putA⟩, ⟨3, removeA⟩]
  ordered := by decide
  reached := by decide
  counted := by decide

def itemText (ev : WatchEvent) : Bytes :=
  match ev.type with
  | .put => text "\x7b\"kv\":\x7b\"key\":\"" ++ b64Encode ev.key ++ text "\"\x7d\x7d"
  | .delete =>
    text "\x7b\"type\":\"DELETE\",\"kv\":\x7b\"key\":\"" ++ b64Encode ev.key ++ text "\"\x7d\x7d"

def lineText (revision : String) (events : List WatchEvent) : Bytes :=
  text "\x7b\"result\":\x7b\"header\":\x7b\"revision\":\"" ++ text revision ++
    text "\"\x7d,\"events\":[" ++
    [44].intercalate (events.map itemText) ++ text "]\x7d\x7d"

def itemJson (ev : WatchEvent) : Json :=
  .object ((match ev.type with | .put => [] | .delete => [("type", .string (text "DELETE"))]) ++
    [("kv", .object [("key", .string (b64Encode ev.key))])])

def lineJson (revision : String) (events : List WatchEvent) : Json :=
  .object [("result", .object [("header", .object [("revision", .string (text revision))]),
    ("events", .array (events.map itemJson))])]

def sampleParse (line : Bytes) : Option Json :=
  ([("3", [putA]), ("3", [removeA]), ("3", [putA, removeA]), ("4", [putB])].find?
    (fun x => lineText x.1 x.2 = line)).map (fun x => lineJson x.1 x.2)

/-- The connection breaks between the two lines of one batch. -/
def lostRun : List Action :=
  [.send 1 (lineText "3" [putA]), .receive 1000, .disconnect, .commit [putB],
    .send 1 (lineText "4" [putB]),
    .receive 1000]

theorem event_lost : ¬ ∀ (parse : Bytes → Option Json) (p : KeyPrefix) (R : Registry) (startRev : ℤ)
    (as : List Action)
    (t : State) (g : Journal), Run (journaled parse p) Any (start R startRev, []) as (t, g) →
      InOrder p startRev t g := by
  intro hall
  have hlost : (exec (journaled sampleParse sampleKey) (start sampleRegistry 2, []) lostRun).any
      (fun x => handed x.1 x.2 = [⟨2, putA⟩, ⟨4, putB⟩] ∧ ⟨3, removeA⟩ ∈ x.1.registry.history) =
        true := by
    decide +kernel
  obtain ⟨⟨t, g⟩, hexec, hlost⟩ := exec_any hlost
  obtain ⟨hhanded, hmem⟩ := of_decide_eq_true hlost
  have hrun : Run (journaled sampleParse sampleKey) Any (start sampleRegistry 2, []) lostRun
      (t, g) :=
    .of_exec hexec (by decide)
  have horder := (hall _ _ _ _ _ _ _ hrun).2 [⟨2, putA⟩] ⟨4, putB⟩ [] hhanded _ hmem
  revert horder
  decide

def cutRun : List Action :=
  [.send 2 (lineText "3" [putA, removeA]), .receive 20, .disconnect,
    .send 2 (lineText "3" [putA, removeA]),
    .receive 50, .commit [putB], .receive 1000, .disconnect, .send 1 (lineText "4" [putB]),
    .receive 1000]

theorem events_in_order_sample :
    ∃ t g,
      exec (journaled sampleParse sampleKey) (start sampleRegistry 2, []) cutRun = some (t, g) ∧
      t.ctx.passed = [putA, removeA, putB] ∧ InOrder sampleKey 2 t g := by
  have hpassed : (exec (journaled sampleParse sampleKey) (start sampleRegistry 2, []) cutRun).any
      (fun x => x.1.ctx.passed = [putA, removeA, putB]) = true := by decide +kernel
  obtain ⟨⟨t, g⟩, hexec, hpassed⟩ := exec_any hpassed
  have hok : Allowed (journaled sampleParse sampleKey) (fun x a => Undivided sampleKey x.1 a)
      (start sampleRegistry 2, []) cutRun := by
    decide +kernel
  exact ⟨t, g, hexec, of_decide_eq_true hpassed, events_in_order sampleParse sampleKey
    (.of_exec hexec hok)⟩

end samples

end KimRpc.Discovery.Watch
