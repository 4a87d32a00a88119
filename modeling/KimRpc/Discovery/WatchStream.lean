import KimRpc.Discovery.Json
import KimRpc.Discovery.Store

/-! The stream of a watch: the lines that libcurl hands over in chunks, what the
client makes of a line, and the lines in which the store sends its events. -/

namespace KimRpc.Discovery

open Library.Decimal Wire

/-- The calls of `cb` so far stand for it: each event with `lastRevision` as it was then. -/
structure WatchCtx where
  buf : Bytes := []
  calls : List (WatchEvent × ℤ) := []
  lastRevision : ℤ
  deriving DecidableEq

def WatchCtx.passed (ctx : WatchCtx) : List WatchEvent := ctx.calls.map Prod.fst

def WatchCtx.call (ctx : WatchCtx) (we : WatchEvent) : WatchCtx :=
  { ctx with calls := ctx.calls ++ [(we, ctx.lastRevision)] }

section client

def readEvent (ev : Json) : Except TypeError WatchEvent := do
  let type ← ev.value "type" []
  let type := if type = text "DELETE" then EventType.delete else EventType.put
  match ev.find "kv" with
  | none => pure ⟨type, [], []⟩
  | some kv =>
    let key ← kv.value "key" []
    let value ← kv.value "value" []
    pure ⟨type, b64Decode key, b64Decode value⟩

/-- An exception leaves the loop with the callbacks made before. -/
def callbacks (ctx : WatchCtx) : List Json → Except WatchCtx WatchCtx
  | [] => .ok ctx
  | ev :: evs =>
    match readEvent ev with
    | .error _ => .error ctx
    | .ok we => callbacks (ctx.call we) evs

def advance (result : Json) (ctx : WatchCtx) : WatchCtx :=
  match result.find "header" with
  | none => ctx
  | some header =>
    if jint header "revision" 0 > ctx.lastRevision then { ctx with
      lastRevision := jint header "revision" 0 } else ctx

variable (parse : Bytes → Option Json)

def parseWatchLine (line : Bytes) (ctx : WatchCtx) : Except WatchCtx WatchCtx :=
  match parse line with
  | none => .ok ctx
  | some root =>
    match root.find "result" with
    | none => .ok ctx
    | some result =>
      match result.find "events" with
      | some (.array evs) => (callbacks ctx evs).map (advance result)
      | _ => .ok ctx

/-- The loop of `watchWrite`, which turns once for each newline in the buffer. -/
def drainLines : ℕ → WatchCtx → Except WatchCtx WatchCtx
  | 0, ctx => .ok ctx
  | n + 1, ctx =>
    let line := ctx.buf.takeWhile (· ≠ 10)
    let ctx := { ctx with buf := ctx.buf.drop (line.length + 1) }
    if line = [] then drainLines n ctx else (parseWatchLine parse line ctx).bind (drainLines n)

def watchWrite (stop : Bool) (chunk : Bytes) (ctx : WatchCtx) : Except WatchCtx (WatchCtx × ℕ) :=
  if stop then .ok (ctx, 0)
  else (drainLines parse ((ctx.buf ++ chunk).count 10) { ctx with buf := ctx.buf ++ chunk }).map
    (fun ctx => (ctx, chunk.length))

end client

section frames

structure Frame where
  line : Bytes
  revision : ℤ
  events : List Modification
  deriving DecidableEq

def IsText (bs : Bytes) (field : String) (j : Json) : Prop :=
  match j.find field with
  | none => bs = []
  | some v => v.IsString (b64Encode bs)

instance (bs : Bytes) (field : String) (j : Json) : Decidable (IsText bs field j) := by
  unfold IsText
  split <;> infer_instance

def EventType.name : EventType → Bytes
  | .put => text "PUT"
  | .delete => text "DELETE"

def IsType (type : EventType) (j : Json) : Prop :=
  match j.find "type" with
  | none => type = .put
  | some v => v.IsString type.name

instance (type : EventType) (j : Json) : Decidable (IsType type j) := by
  unfold IsType
  split <;> infer_instance

def IsEvent (m : Modification) (j : Json) : Prop :=
  j.IsObject ∧ IsType m.event.type j ∧ ∃ kv ∈ j.find "kv", kv.IsObject ∧
  IsText m.event.key "key" kv ∧
    IsText m.event.value "value" kv

instance : DecidableRel IsEvent := fun _ _ => inferInstanceAs (Decidable (_ ∧ _))

def AreEvents (ms : List Modification) (result : Json) : Prop :=
  match result.find "events" with
  | none => ms = []
  | some (.array evs) => ms ≠ [] ∧ List.Forall₂ IsEvent ms evs
  | some _ => False

instance (ms : List Modification) (result : Json) : Decidable (AreEvents ms result) := by
  unfold AreEvents
  split <;> infer_instance

def Frame.IsRoot (f : Frame) (root : Json) : Prop :=
  ∃ result ∈ root.find "result", AreEvents f.events result ∧ ∃ header ∈ result.find "header",
    ∃ revision ∈ header.find "revision", revision.IsString (decimal f.revision.toNat)

instance (f : Frame) : DecidablePred f.IsRoot := fun root =>
  inferInstanceAs (Decidable (∃ result ∈ root.find "result", _))

def Frame.Reads (parse : Bytes → Option Json) (f : Frame) : Prop :=
  f.line ≠ [] ∧ 10 ∉ f.line ∧ ∃ root ∈ parse f.line, f.IsRoot root

instance (parse : Bytes → Option Json) (f : Frame) : Decidable (f.Reads parse) :=
  inferInstanceAs (Decidable (_ ∧ _))

def Frame.handled (f : Frame) (ctx : WatchCtx) : WatchCtx :=
  if f.events = [] then ctx
  else
    { ctx with
      calls := ctx.calls ++ f.events.map (fun m => (m.event, ctx.lastRevision))
      lastRevision := max ctx.lastRevision f.revision }

def Frame.wire (f : Frame) : Bytes := f.line ++ [10]

end frames

section reading

variable {m : Modification} {ms : List Modification} {ev kv : Json} {evs : List Json}

lemma IsText.value {bs : Bytes} {field : String} {j : Json} (hj : j.IsObject)
    (h : IsText bs field j) :
    ∃ s, j.value field [] = .ok s ∧ b64Decode s = bs := by
  rw [IsText] at h
  cases hf : j.find field with
  | none =>
    rw [hf] at h
    obtain rfl : bs = [] := h
    exact ⟨[], Json.value_absent hj hf, rfl⟩
  | some v =>
    rw [hf] at h
    exact ⟨_, Json.value_present hf h, decode_encode bs⟩

lemma IsType.value {type : EventType} {j : Json} (hj : j.IsObject) (h : IsType type j) :
    ∃ s, j.value "type" [] = .ok s ∧
    (if s = text "DELETE" then EventType.delete else EventType.put) = type := by
  rw [IsType] at h
  cases hf : j.find "type" with
  | none =>
    rw [hf] at h
    obtain rfl : type = .put := h
    exact ⟨[], Json.value_absent hj hf, by decide⟩
  | some v =>
    rw [hf] at h
    refine ⟨_, Json.value_present hf h, ?_⟩
    cases type <;> decide

lemma IsEvent.read (h : IsEvent m ev) : readEvent ev = .ok m.event := by
  obtain ⟨hev, htype, kv, hfind, hkv, hkey, hvalue⟩ := h
  obtain ⟨type, htype, hname⟩ := htype.value hev
  obtain ⟨key, hkey, hkeyText⟩ := hkey.value hkv
  obtain ⟨value, hvalue, hvalueText⟩ := hvalue.value hkv
  rw [readEvent, htype, Option.mem_def.mp hfind]
  change (do
    let key ← kv.value "key" []
    let value ← kv.value "value" []
    pure (⟨_, b64Decode key, b64Decode value⟩ : WatchEvent)) = _
  rw [hkey, hvalue, hname]
  change Except.ok (⟨_, b64Decode key, b64Decode value⟩ : WatchEvent) = _
  rw [hkeyText, hvalueText]

lemma callbacks_events (h : List.Forall₂ IsEvent ms evs) (ctx : WatchCtx) :
    callbacks ctx evs =
      .ok { ctx with calls := ctx.calls ++ ms.map (fun m => (m.event, ctx.lastRevision)) } := by
  induction h generalizing ctx with
  | nil => simp [callbacks]
  | cons hev _ ih =>
    rw [callbacks, hev.read]
    simp [ih, WatchCtx.call]

variable {parse : Bytes → Option Json} {f : Frame} {fs : List Frame}

lemma advance_eq {result header revision : Json} {n : ℕ}
    (hheader : result.find "header" = some header)
    (hrevision : header.find "revision" = some revision) (htext : revision.IsString (decimal n))
    (hn : n < 2 ^ 63)
    (ctx : WatchCtx) : advance result ctx = { ctx with
      lastRevision := max ctx.lastRevision n } := by
  have hj : jint header "revision" 0 = n := jint_decimal hn hrevision htext
  rw [advance, hheader]
  simp only [hj]
  rcases le_or_gt (n : ℤ) ctx.lastRevision with hle | hlt
  · rw [if_neg (not_lt.mpr hle), max_eq_left hle]
  · rw [if_pos hlt, max_eq_right hlt.le]

lemma Frame.Reads.handled (h : f.Reads parse) (hrev : 0 ≤ f.revision ∧ f.revision < 2 ^ 63)
    (ctx : WatchCtx) :
    parseWatchLine parse f.line ctx = .ok (f.handled ctx) := by
  obtain ⟨-, -, root, hroot, result, hresult, hevents, header, hheader, revision, hrevision,
      htext⟩ := h
  rw [parseWatchLine, Option.mem_def.mp hroot]
  simp only [Option.mem_def.mp hresult]
  unfold AreEvents at hevents
  split at hevents
  · next hnone => rw [hnone, Frame.handled, if_pos hevents]
  · next evs harray =>
    have hadvance := advance_eq hheader hrevision htext (by omega)
    rw [harray, Frame.handled, if_neg hevents.1]
    simp only [callbacks_events hevents.2, Except.map, hadvance, Int.toNat_of_nonneg hrev.1]
  · exact hevents.elim

lemma handled_buf (ctx : WatchCtx) (bs : Bytes) : f.handled { ctx with buf := bs } =
    { f.handled ctx with buf := bs } := by
  by_cases h : f.events = [] <;> simp [Frame.handled, h]

def handledAll (fs : List Frame) (ctx : WatchCtx) : WatchCtx :=
  fs.foldl (fun ctx f => f.handled ctx) ctx

lemma handledAll_buf (fs : List Frame) (ctx : WatchCtx) (bs : Bytes) :
    handledAll fs { ctx with buf := bs } = { handledAll fs ctx with buf := bs } := by
  induction fs generalizing ctx with
  | nil => rfl
  | cons f fs ih =>
    rw [handledAll, List.foldl_cons, handled_buf]
    exact ih _

lemma handledAll_append (gs : List Frame) (ctx : WatchCtx) :
    handledAll (fs ++ gs) ctx = handledAll gs (handledAll fs ctx) := List.foldl_append

lemma handledAll_passed (fs : List Frame) (ctx : WatchCtx) :
    (handledAll fs ctx).passed = ctx.passed ++ (fs.flatMap Frame.events).map
      Modification.event := by
  induction fs generalizing ctx with
  | nil => simp [handledAll]
  | cons f fs ih =>
    have hf : (f.handled ctx).passed = ctx.passed ++ f.events.map Modification.event := by
      by_cases h : f.events = [] <;> simp [Frame.handled, WatchCtx.passed, h, Function.comp_def]
    rw [List.flatMap_cons, List.map_append, ← List.append_assoc, ← hf]
    exact ih _

lemma handledAll_revision_le (fs : List Frame) (ctx : WatchCtx) (r : ℤ) :
    (handledAll fs ctx).lastRevision ≤ r ↔
    ctx.lastRevision ≤ r ∧ ∀ f ∈ fs, f.events ≠ [] → f.revision ≤ r := by
  induction fs generalizing ctx with
  | nil => simp [handledAll]
  | cons f fs ih =>
    have hf : (f.handled ctx).lastRevision ≤ r ↔ ctx.lastRevision ≤ r ∧
        (f.events ≠ [] → f.revision ≤ r) := by
      by_cases h : f.events = [] <;> simp [Frame.handled, h]
    rw [List.forall_mem_cons, ← and_assoc, ← hf]
    exact ih _

lemma count_wire (hfs : ∀ f ∈ fs, 10 ∉ f.line) : (fs.flatMap Frame.wire).count 10 = fs.length := by
  induction fs with
  | nil => rfl
  | cons f fs ih =>
    rw [List.forall_mem_cons] at hfs
    rw [List.flatMap_cons, List.count_append, ih hfs.2, Frame.wire, List.count_append,
      List.count_eq_zero.mpr hfs.1]
    simp [Nat.add_comm]

lemma takeWhile_line {line : Bytes} (h : 10 ∉ line) (xs : Bytes) :
    (line ++ 10 :: xs).takeWhile (· ≠ 10) = line := by
  have hline : ∀ c ∈ line, decide (c ≠ 10) = true := by
    intro c hc
    apply decide_eq_true
    rintro rfl
    exact h hc
  rw [List.takeWhile_append_of_pos hline, List.takeWhile_cons_of_neg (by decide), List.append_nil]

def handleLine (parse : Bytes → Option Json) (line : Bytes) (ctx : WatchCtx) :
    Except WatchCtx WatchCtx :=
  if line = [] then .ok ctx else parseWatchLine parse line ctx

lemma drainLines_line {line : Bytes} (h : 10 ∉ line) (xs : Bytes) (ctx : WatchCtx) :
    drainLines parse ((line ++ 10 :: xs).count 10) { ctx with buf := line ++ 10 :: xs } =
      (handleLine parse line { ctx with buf := xs }).bind (drainLines parse (xs.count 10)) := by
  have hcount : (line ++ 10 :: xs).count 10 = xs.count 10 + 1 := by
    rw [List.count_append, List.count_eq_zero.mpr h, List.count_cons_self, Nat.zero_add]
  have hdrop : (line ++ 10 :: xs).drop (line.length + 1) = xs := by
    rw [List.drop_append]
    simp
  rw [hcount, drainLines, handleLine]
  simp only [takeWhile_line h, hdrop]
  by_cases hne : line = []
  · rw [if_pos hne, if_pos hne]
    rfl
  · rw [if_neg hne, if_neg hne]

lemma drainLines_frames (hfs : ∀ f ∈ fs, f.Reads parse ∧ 0 ≤ f.revision ∧ f.revision < 2 ^ 63)
    {xs unread : Bytes}
    (h : xs ++ unread = fs.flatMap Frame.wire) (ctx : WatchCtx) : ∃ done rest buf,
    fs = done ++ rest ∧
      drainLines parse (xs.count 10) { ctx with buf := xs } = .ok { handledAll done ctx with
        buf := buf } ∧
      buf ++ unread = rest.flatMap Frame.wire ∧ 10 ∉ buf := by
  induction fs generalizing xs ctx with
  | nil =>
    obtain ⟨rfl, rfl⟩ := List.append_eq_nil_iff.mp h
    exact ⟨[], [], [], rfl, rfl, rfl, by simp⟩
  | cons f fs ih =>
    rw [List.forall_mem_cons] at hfs
    obtain ⟨⟨hf, hrev⟩, hfs⟩ := hfs
    by_cases hnl : 10 ∈ xs
    · obtain ⟨line, xs, rfl, hline⟩ := List.eq_append_cons_of_mem hnl
      rw [List.flatMap_cons, Frame.wire, List.append_assoc, List.append_assoc, List.cons_append,
        List.singleton_append] at h
      obtain ⟨rfl, hrest⟩ := cut_unique hline hf.2.1 h
      obtain ⟨done, rest, buf, rfl, hdrain, hbuf, hnot⟩ := ih hfs hrest (f.handled ctx)
      refine ⟨f :: done, rest, buf, rfl, ?_, hbuf, hnot⟩
      rw [drainLines_line hline, handleLine, if_neg hf.1, hf.handled hrev, handled_buf]
      exact hdrain
    · refine ⟨[], f :: fs, xs, rfl, ?_, h, hnl⟩
      rw [List.count_eq_zero.mpr hnl]
      rfl

end reading

end KimRpc.Discovery
