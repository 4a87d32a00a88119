import KimRpc.Discovery.WatchStream
import KimRpc.Library.StreamDecoding

/-! The chunks of a watch connection: the loop of `watchWrite` handles the lines of
the stream, however it is cut, up to the first line that throws. -/

namespace KimRpc.Discovery

open Library.StreamDecoding Wire

section lines

lemma line_split {xs : Bytes} (h : 10 ∈ xs) : ∃ line rest, 10 ∉ line ∧ xs = line ++ 10 :: rest := by
  obtain ⟨line, rest, he, hline⟩ := List.eq_append_cons_of_mem h
  exact ⟨line, rest, hline, he⟩

def nextLine (xs : Bytes) : Verdict UInt8 Bytes :=
  let line := xs.takeWhile (· ≠ 10)
  if 10 ∈ xs then .emit [line] (xs.drop (line.length + 1)) else .wait

lemma nextLine_line {line : Bytes} (h : 10 ∉ line) (rest : Bytes) :
    nextLine (line ++ 10 :: rest) = .emit [line] rest := by
  have hmem : 10 ∈ line ++ 10 :: rest := by simp
  have hdrop : (line ++ 10 :: rest).drop (line.length + 1) = rest := by
    rw [List.drop_append]
    simp
  rw [nextLine]
  simp only [takeWhile_line h, if_pos hmem, hdrop]

lemma nextLine_emit {xs rest : Bytes} {out : List Bytes} (h : nextLine xs = .emit out rest) :
    ∃ line, 10 ∉ line ∧ xs = line ++ 10 :: rest ∧ out = [line] := by
  by_cases hmem : 10 ∈ xs
  · obtain ⟨line, tail, hline, rfl⟩ := line_split hmem
    rw [nextLine_line hline] at h
    cases h
    exact ⟨line, hline, rfl, rfl⟩
  · rw [nextLine, if_neg hmem] at h
    cases h

def lineDecoder : Decoder UInt8 Bytes where
  next := nextLine
  next_nil := rfl
  emit_shorter h := by
    obtain ⟨line, -, rfl, -⟩ := nextLine_emit h
    simp
    omega
  emit_append ys h := by
    obtain ⟨line, hline, rfl, rfl⟩ := nextLine_emit h
    rw [List.append_assoc]
    exact nextLine_line hline _
  stop_append ys h := by
    rw [nextLine] at h
    split_ifs at h

def lines (xs : Bytes) : List Bytes := (lineDecoder.drain xs).1

def tail (xs : Bytes) : Bytes :=
  match (lineDecoder.drain xs).2 with
  | .pending rest => rest
  | .stopped => []

lemma lines_wait {xs : Bytes} (h : 10 ∉ xs) : lines xs = [] ∧ tail xs = xs := by
  have hdrain := lineDecoder.drain_wait (show lineDecoder.next xs = .wait from if_neg h)
  rw [lines, tail, hdrain]
  exact ⟨rfl, rfl⟩

lemma lines_line {line : Bytes} (h : 10 ∉ line) (xs : Bytes) :
    lines (line ++ 10 :: xs) = line :: lines xs ∧ tail (line ++ 10 :: xs) = tail xs := by
  have hdrain := lineDecoder.drain_emit (nextLine_line h xs)
  rw [lines, tail, hdrain]
  exact ⟨rfl, rfl⟩

lemma lines_induction {P : Bytes → Prop} (hwait : ∀ xs, 10 ∉ xs → P xs)
    (hline : ∀ line xs, 10 ∉ line → P xs → P (line ++ 10 :: xs)) (xs : Bytes) : P xs := by
  induction xs using (measure List.length).wf.induction with
  | h xs ih =>
    by_cases hmem : 10 ∈ xs
    · obtain ⟨line, rest, hnl, rfl⟩ := line_split hmem
      refine hline line rest hnl (ih rest ?_)
      change rest.length < (line ++ 10 :: rest).length
      rw [List.length_append, List.length_cons]
      omega
    · exact hwait xs hmem

lemma tail_free (xs : Bytes) : 10 ∉ tail xs := by
  induction xs using lines_induction with
  | hwait xs h => rwa [(lines_wait h).2]
  | hline line xs h ih => rwa [(lines_line h xs).2]

lemma lines_append (xs ys : Bytes) :
    lines (xs ++ ys) = lines xs ++ lines (tail xs ++ ys) ∧
    tail (xs ++ ys) = tail (tail xs ++ ys) := by
  induction xs using lines_induction with
  | hwait xs h =>
    obtain ⟨hnone, htail⟩ := lines_wait h
    rw [hnone, htail]
    exact ⟨rfl, rfl⟩
  | hline line xs h ih =>
    obtain ⟨hlines, htail⟩ := lines_line h xs
    obtain ⟨hlines', htail'⟩ := lines_line h (xs ++ ys)
    rw [List.append_assoc, List.cons_append, hlines', htail', hlines, htail, ih.1, ih.2]
    exact ⟨rfl, rfl⟩

end lines

section shapes

def StringOr (field : String) (j : Json) : Prop := ∀ v ∈ j.find field, ∃ s, v.IsString s

instance : ∀ v : Json, Decidable (∃ s, v.IsString s)
  | .string s => .isTrue ⟨s, rfl⟩
  | .null | .boolean _ | .number _ | .array _ | .object _ => .isFalse (fun ⟨_, h⟩ => h)

instance (field : String) (j : Json) : Decidable (StringOr field j) :=
  inferInstanceAs (Decidable (∀ v ∈ j.find field, ∃ s, v.IsString s))

/-- The accesses of the loop over the events do not throw. -/
def WellTyped (ev : Json) : Prop :=
  ev.IsObject ∧ StringOr "type" ev ∧
    ∀ kv ∈ ev.find "kv", kv.IsObject ∧ StringOr "key" kv ∧ StringOr "value" kv

instance (ev : Json) : Decidable (WellTyped ev) :=
  inferInstanceAs (Decidable (_ ∧ _ ∧ ∀ kv ∈ ev.find "kv", _ ∧ _ ∧ _))

def lineEvents (parse : Bytes → Option Json) (line : Bytes) : Option (Json × List Json) :=
  if line = [] then none
  else
    (parse line).bind (fun root => (root.find "result").bind (fun result =>
      match result.find "events" with
      | some (.array evs) => some (result, evs)
      | _ => none))

def Throws (parse : Bytes → Option Json) (line : Bytes) : Prop :=
  ∃ x ∈ lineEvents parse line, ∃ ev ∈ x.2, ¬ WellTyped ev

instance (parse : Bytes → Option Json) (line : Bytes) : Decidable (Throws parse line) :=
  inferInstanceAs (Decidable (∃ x ∈ lineEvents parse line, ∃ ev ∈ x.2, ¬ WellTyped ev))

lemma value_iff {j : Json} {field : String} :
    (∃ s, j.value field [] = .ok s) ↔ j.IsObject ∧ StringOr field j := by
  constructor
  · rintro ⟨s, hs⟩
    cases j with
    | object members =>
      refine ⟨trivial, fun v hv => ?_⟩
      rw [Json.value, show members.lookup field = some v from hv] at hs
      cases v with
      | string t => exact ⟨t, rfl⟩
      | _ => cases hs
    | _ => cases hs
  · rintro ⟨hj, hfield⟩
    cases hf : j.find field with
    | none => exact ⟨[], Json.value_absent hj hf⟩
    | some v =>
      obtain ⟨s, hs⟩ := hfield v hf
      exact ⟨s, Json.value_present hf hs⟩

lemma readEvent_iff {ev : Json} : (∃ we, readEvent ev = .ok we) ↔ WellTyped ev := by
  rw [WellTyped, ← and_assoc, ← value_iff, readEvent]
  cases htype : ev.value "type" [] with
  | error e =>
    simp only [reduceCtorEq, exists_false, false_and, iff_false, not_exists]
    intro we hwe
    cases hwe
  | ok type =>
    cases hkv : ev.find "kv" with
    | none =>
      refine iff_of_true ⟨_, rfl⟩ ⟨⟨type, rfl⟩, ?_⟩
      intro kv hmem
      cases hmem
    | some kv =>
      have hkv : (kv.IsObject ∧ StringOr "key" kv ∧ StringOr "value" kv) ↔
          (∃ s, kv.value "key" [] = .ok s) ∧ ∃ s, kv.value "value" [] = .ok s := by
        rw [value_iff, value_iff, and_and_left]
      simp only [Option.mem_some_iff, forall_eq', hkv]
      cases hkey : kv.value "key" [] with
      | error e =>
        simp only [reduceCtorEq, exists_false, false_and, and_false, iff_false, not_exists]
        intro we hwe
        cases hwe
      | ok key =>
        cases hvalue : kv.value "value" [] with
        | error e =>
          simp only [reduceCtorEq, exists_false, and_false, iff_false, not_exists]
          intro we hwe
          cases hwe
        | ok value => exact iff_of_true ⟨_, rfl⟩ ⟨⟨type, rfl⟩, ⟨key, rfl⟩, ⟨value, rfl⟩⟩

end shapes

section handling

variable {parse : Bytes → Option Json} {ctx c : WatchCtx} {line : Bytes} {evs : List Json}

lemma handleLine_eq (ctx : WatchCtx) : handleLine parse line ctx =
    match lineEvents parse line with
    | none => .ok ctx
    | some (result, evs) => (callbacks ctx evs).map (advance result) := by
  rw [handleLine, lineEvents]
  by_cases hne : line = []
  · rw [if_pos hne, if_pos hne]
  · rw [if_neg hne, if_neg hne, parseWatchLine]
    cases parse line with
    | none => rfl
    | some root =>
      cases hresult : root.find "result" with
      | none => simp [hresult]
      | some result =>
        simp only [hresult, Option.bind_some]
        cases result.find "events" with
        | none => rfl
        | some events => cases events <;> rfl

def handleLines (parse : Bytes → Option Json) : List Bytes → WatchCtx → Except WatchCtx WatchCtx
  | [], ctx => .ok ctx
  | line :: ls, ctx => (handleLine parse line ctx).bind (handleLines parse ls)

lemma callbacks_iff (ctx : WatchCtx) :
    (∃ c, callbacks ctx evs = .ok c) ↔ ∀ ev ∈ evs, WellTyped ev := by
  induction evs generalizing ctx with
  | nil => exact iff_of_true ⟨ctx, rfl⟩ (by simp)
  | cons ev evs ih =>
    rw [List.forall_mem_cons, ← readEvent_iff, callbacks]
    cases readEvent ev with
    | error e => simp
    | ok we => simpa using ih _

lemma handleLine_iff (ctx : WatchCtx) :
    (∃ c, handleLine parse line ctx = .ok c) ↔ ¬ Throws parse line := by
  rw [handleLine_eq, Throws]
  cases lineEvents parse line with
  | none => simp
  | some x =>
    obtain ⟨result, evs⟩ := x
    simp only [Option.mem_some_iff, exists_eq_left', not_exists, not_and, not_not]
    rw [← callbacks_iff ctx]
    cases callbacks ctx evs with
    | error e => simp [Except.map]
    | ok c => simp [Except.map]

lemma handleLines_iff {ls : List Bytes} (ctx : WatchCtx) :
    (∃ c, handleLines parse ls ctx = .ok c) ↔ ∀ line ∈ ls, ¬ Throws parse line := by
  induction ls generalizing ctx with
  | nil => exact iff_of_true ⟨ctx, rfl⟩ (by simp)
  | cons line ls ih =>
    rw [List.forall_mem_cons, ← handleLine_iff ctx, handleLines]
    cases handleLine parse line ctx with
    | error e => simp [Except.bind]
    | ok c => simpa [Except.bind] using ih c

lemma handleLines_append {ls ls' : List Bytes} (ctx : WatchCtx) :
    handleLines parse (ls ++ ls') ctx = (handleLines parse ls ctx).bind
      (handleLines parse ls') := by
  induction ls generalizing ctx with
  | nil => rfl
  | cons line ls ih =>
    rw [List.cons_append, handleLines, handleLines]
    cases handleLine parse line ctx with
    | error e => rfl
    | ok c => exact ih c

def withBuf (bs : Bytes) : Except WatchCtx WatchCtx → Except WatchCtx WatchCtx
  | .ok c => .ok { c with buf := bs }
  | .error c => .error { c with buf := bs }

lemma callbacks_buf (bs : Bytes) (ctx : WatchCtx) :
    callbacks { ctx with buf := bs } evs = withBuf bs (callbacks ctx evs) := by
  induction evs generalizing ctx with
  | nil => rfl
  | cons ev evs ih =>
    rw [callbacks, callbacks]
    cases readEvent ev with
    | error e => rfl
    | ok we => exact ih (ctx.call we)

lemma advance_buf (result : Json) (bs : Bytes) (ctx : WatchCtx) :
    advance result { ctx with buf := bs } = { advance result ctx with buf := bs } := by
  rw [advance, advance]
  cases result.find "header" with
  | none => rfl
  | some header =>
    simp only
    split_ifs <;> rfl

lemma handleLine_buf (bs : Bytes) (ctx : WatchCtx) :
    handleLine parse line { ctx with buf := bs } = withBuf bs (handleLine parse line ctx) := by
  rw [handleLine_eq, handleLine_eq]
  cases lineEvents parse line with
  | none => rfl
  | some x =>
    simp only [callbacks_buf]
    cases callbacks ctx x.2 with
    | error c => rfl
    | ok c => exact congrArg Except.ok (advance_buf x.1 bs c)

lemma drainLines_ok {xs : Bytes} (h : handleLines parse (lines xs) ctx = .ok c) :
    drainLines parse (xs.count 10) { ctx with buf := xs } = .ok { c with buf := tail xs } := by
  induction xs using lines_induction generalizing ctx with
  | hwait xs hnl =>
    rw [(lines_wait hnl).1] at h
    cases h
    rw [List.count_eq_zero.mpr hnl, (lines_wait hnl).2]
    rfl
  | hline line xs hnl ih =>
    rw [(lines_line hnl xs).1, handleLines] at h
    rw [drainLines_line hnl, handleLine_buf, (lines_line hnl xs).2]
    cases hline : handleLine parse line ctx with
    | error e =>
      rw [hline] at h
      cases h
    | ok u =>
      rw [hline] at h
      exact ih h

lemma drainLines_error {xs : Bytes} {e : WatchCtx}
    (h : handleLines parse (lines xs) ctx = .error e) :
    ∃ e', drainLines parse (xs.count 10) { ctx with buf := xs } = .error e' := by
  induction xs using lines_induction generalizing ctx with
  | hwait xs hnl =>
    rw [(lines_wait hnl).1] at h
    cases h
  | hline line xs hnl ih =>
    rw [(lines_line hnl xs).1, handleLines] at h
    rw [drainLines_line hnl, handleLine_buf]
    cases hline : handleLine parse line ctx with
    | error e => exact ⟨_, rfl⟩
    | ok u =>
      rw [hline] at h
      exact ih h

lemma handleLines_buf {ls : List Bytes} (bs : Bytes) (ctx : WatchCtx) :
    handleLines parse ls { ctx with buf := bs } = withBuf bs (handleLines parse ls ctx) := by
  induction ls generalizing ctx with
  | nil => rfl
  | cons line ls ih =>
    rw [handleLines, handleLines, handleLine_buf]
    cases handleLine parse line ctx with
    | error e => rfl
    | ok c => exact ih c

end handling

section chunks

variable (parse : Bytes → Option Json)

def deliver : List Bytes → WatchCtx → Except WatchCtx WatchCtx
  | [], ctx => .ok ctx
  | chunk :: chunks, ctx => (watchWrite parse false chunk ctx).bind (fun r => deliver chunks r.1)

variable {parse} {ctx c : WatchCtx} {chunk : Bytes} {chunks : List Bytes}

lemma watchWrite_ok (h : handleLines parse (lines (ctx.buf ++ chunk)) ctx = .ok c) :
    watchWrite parse false chunk ctx =
      .ok ({ c with buf := tail (ctx.buf ++ chunk) }, chunk.length) := by
  rw [watchWrite, if_neg Bool.false_ne_true, drainLines_ok h]
  rfl

lemma watchWrite_error {e : WatchCtx}
    (h : handleLines parse (lines (ctx.buf ++ chunk)) ctx = .error e) :
    ∃ e', watchWrite parse false chunk ctx = .error e' := by
  obtain ⟨e', he⟩ := drainLines_error h
  refine ⟨e', ?_⟩
  rw [watchWrite, if_neg Bool.false_ne_true, he]
  rfl

lemma lines_cons (bs chunk : Bytes) (chunks : List Bytes) :
    lines (bs ++ (chunk :: chunks).flatten) =
    lines (bs ++ chunk) ++ lines (tail (bs ++ chunk) ++ chunks.flatten) ∧
      tail (bs ++ (chunk :: chunks).flatten) = tail (tail (bs ++ chunk) ++ chunks.flatten) := by
  rw [List.flatten_cons, ← List.append_assoc]
  exact lines_append _ _

lemma deliver_ok (ctx : WatchCtx) (hnl : 10 ∉ ctx.buf)
    (h : handleLines parse (lines (ctx.buf ++ chunks.flatten)) ctx = .ok c) :
    deliver parse chunks ctx = .ok { c with buf := tail (ctx.buf ++ chunks.flatten) } := by
  induction chunks generalizing ctx c with
  | nil =>
    rw [List.flatten_nil, List.append_nil] at h ⊢
    rw [(lines_wait hnl).1] at h
    cases h
    rw [(lines_wait hnl).2]
    rfl
  | cons chunk chunks ih =>
    obtain ⟨hlines, htail⟩ := lines_cons ctx.buf chunk chunks
    rw [hlines, handleLines_append] at h
    cases hfirst : handleLines parse (lines (ctx.buf ++ chunk)) ctx with
    | error e =>
      rw [hfirst] at h
      cases h
    | ok u =>
      rw [hfirst] at h
      have hrest := ih { u with buf := tail (ctx.buf ++ chunk) } (tail_free _)
        (by rw [handleLines_buf]; exact congrArg (withBuf _) h)
      rw [deliver, watchWrite_ok hfirst, htail]
      exact hrest

lemma deliver_error (ctx : WatchCtx) (hnl : 10 ∉ ctx.buf) {e : WatchCtx}
    (h : handleLines parse (lines (ctx.buf ++ chunks.flatten)) ctx = .error e) :
    ∃ e', deliver parse chunks ctx = .error e' := by
  induction chunks generalizing ctx e with
  | nil =>
    rw [List.flatten_nil, List.append_nil, (lines_wait hnl).1] at h
    cases h
  | cons chunk chunks ih =>
    obtain ⟨hlines, -⟩ := lines_cons ctx.buf chunk chunks
    rw [hlines, handleLines_append] at h
    rw [deliver]
    cases hfirst : handleLines parse (lines (ctx.buf ++ chunk)) ctx with
    | error e =>
      obtain ⟨e', he⟩ := watchWrite_error hfirst
      exact ⟨e', by rw [he]; rfl⟩
    | ok u =>
      rw [hfirst] at h
      rw [watchWrite_ok hfirst]
      exact ih { u with buf := tail (ctx.buf ++ chunk) } (tail_free _)
        (by rw [handleLines_buf]; exact congrArg (withBuf _) h)

lemma deliver_append (xs ys : List Bytes) (ctx : WatchCtx) :
    deliver parse (xs ++ ys) ctx = (deliver parse xs ctx).bind (deliver parse ys) := by
  induction xs generalizing ctx with
  | nil => rfl
  | cons chunk xs ih =>
    rw [List.cons_append, deliver, deliver]
    cases watchWrite parse false chunk ctx with
    | error e => rfl
    | ok r => exact ih r.1

end chunks

section order

variable {parse : Bytes → Option Json} {u v : WatchCtx} {line : Bytes} {evs : List Json}
    {result : Json}

def Reads (ev : Json) (we : WatchEvent) : Prop := readEvent ev = .ok we

def frameRevision (result : Json) : Option ℤ :=
  (result.find "header").map (fun header => jint header "revision" 0)

lemma callbacks_reads {wes : List WatchEvent} (h : List.Forall₂ Reads evs wes) (u : WatchCtx) :
    callbacks u evs = .ok { u with
      calls := u.calls ++ wes.map (fun we => (we, u.lastRevision)) } := by
  induction h generalizing u with
  | nil => simp [callbacks]
  | @cons ev we evs wes hev _ ih =>
    rw [callbacks, show readEvent ev = .ok we from hev]
    simp [ih, WatchCtx.call]

lemma reads_of_wellTyped (h : ∀ ev ∈ evs, WellTyped ev) : ∃ wes, List.Forall₂ Reads evs wes := by
  induction evs with
  | nil => exact ⟨[], .nil⟩
  | cons ev evs ih =>
    rw [List.forall_mem_cons] at h
    obtain ⟨we, hwe⟩ := readEvent_iff.mpr h.1
    obtain ⟨wes, hwes⟩ := ih h.2
    exact ⟨we :: wes, .cons hwe hwes⟩

lemma advance_max (result : Json) (u : WatchCtx) : advance result u =
    { u with lastRevision := (frameRevision result).elim u.lastRevision (max u.lastRevision) } := by
  rw [advance, frameRevision]
  cases result.find "header" with
  | none => rfl
  | some header =>
    simp only [Option.map_some, Option.elim_some]
    split_ifs with hlt
    · rw [max_eq_right hlt.le]
    · rw [max_eq_left (not_lt.mp hlt)]

lemma handleLine_reads {wes : List WatchEvent} (hline : lineEvents parse line = some (result, evs))
    (h : List.Forall₂ Reads evs wes) (u : WatchCtx) :
    handleLine parse line u = .ok {
      buf := u.buf
      calls := u.calls ++ wes.map (fun we => (we, u.lastRevision))
      lastRevision := (frameRevision result).elim u.lastRevision (max u.lastRevision) } := by
  rw [handleLine_eq, hline]
  simp only [callbacks_reads h, Except.map, advance_max]

lemma handleLine_grows (h : handleLine parse line u = .ok v) :
    u.calls <+: v.calls ∧ u.lastRevision ≤ v.lastRevision := by
  have hsound := (handleLine_iff u).mp ⟨v, h⟩
  cases hline : lineEvents parse line with
  | none =>
    rw [handleLine_eq, hline] at h
    cases h
    exact ⟨List.prefix_rfl, le_rfl⟩
  | some x =>
    have hevs : ∀ ev ∈ x.2, WellTyped ev :=
      fun ev hev => by_contra fun hbad => hsound ⟨x, hline, ev, hev, hbad⟩
    obtain ⟨wes, hwes⟩ := reads_of_wellTyped hevs
    rw [handleLine_reads hline hwes] at h
    cases h
    refine ⟨List.prefix_append _ _, ?_⟩
    cases frameRevision x.1 with
    | none => exact le_rfl
    | some revision => exact le_max_left _ _

lemma handleLines_grows {ls : List Bytes} (h : handleLines parse ls u = .ok v) :
    u.calls <+: v.calls ∧ u.lastRevision ≤ v.lastRevision := by
  induction ls generalizing u with
  | nil =>
    cases h
    exact ⟨List.prefix_rfl, le_rfl⟩
  | cons line ls ih =>
    rw [handleLines] at h
    cases hline : handleLine parse line u with
    | error e =>
      rw [hline] at h
      cases h
    | ok w =>
      rw [hline] at h
      obtain ⟨hcalls, hle⟩ := handleLine_grows hline
      obtain ⟨hcalls', hle'⟩ := ih h
      exact ⟨hcalls.trans hcalls', hle.trans hle'⟩

lemma handleLines_front {ls ls' : List Bytes} (h : handleLines parse (ls ++ ls') u = .ok v) :
    ∃ w, handleLines parse ls u = .ok w ∧ handleLines parse ls' w = .ok v := by
  rw [handleLines_append] at h
  cases hls : handleLines parse ls u with
  | error e =>
    rw [hls] at h
    cases h
  | ok w =>
    rw [hls] at h
    exact ⟨w, rfl, h⟩

end order

/-- The split into chunks does not matter: the lines of the stream are handled in order. The
events of a frame are passed to the callback with `lastRevision` as the lines before left it,
and only then it moves to the revision of the frame. -/
theorem chunks_reassembled (parse : Bytes → Option Json) (ctx : WatchCtx) (hbuf : ctx.buf = [])
    (chunks : List Bytes) (hlines : ∀ line ∈ lines chunks.flatten, ¬ Throws parse line) : ∃ t c,
    deliver parse chunks ctx = .ok t ∧
    watchWrite parse false chunks.flatten ctx = .ok (t, chunks.flatten.length) ∧
    handleLines parse (lines chunks.flatten) ctx = .ok c ∧
    t = { c with buf := tail chunks.flatten } ∧
    (∀ xs ys, chunks = xs ++ ys → ∃ u, deliver parse xs ctx = .ok u ∧ u.calls <+: t.calls ∧
      ctx.lastRevision ≤ u.lastRevision ∧ u.lastRevision ≤ t.lastRevision) ∧
    ∀ ls line ls' result evs, lines chunks.flatten = ls ++ line :: ls' →
      lineEvents parse line = some (result, evs) →
      ∃ u v wes, handleLines parse ls ctx = .ok u ∧ handleLines parse (ls ++ [line]) ctx = .ok v ∧
        List.Forall₂ Reads evs wes ∧
        v.calls = u.calls ++ wes.map (fun we => (we, u.lastRevision)) ∧ v.calls <+: t.calls ∧
        v.lastRevision = (frameRevision result).elim u.lastRevision (max u.lastRevision) := by
  have hnl : 10 ∉ ctx.buf := by simp [hbuf]
  obtain ⟨c, hc⟩ := (handleLines_iff ctx).mpr hlines
  have hstream : handleLines parse (lines (ctx.buf ++ chunks.flatten)) ctx = .ok c := by rwa [hbuf]
  refine ⟨_, c, deliver_ok ctx hnl hstream, watchWrite_ok hstream, hc, by rw [hbuf]; rfl, ?_, ?_⟩
  · rintro xs ys rfl
    have hsplit := (lines_append xs.flatten ys.flatten).1
    rw [← List.flatten_append] at hsplit
    rw [hsplit] at hc
    obtain ⟨u, hxs, hys⟩ := handleLines_front hc
    have hfirst : handleLines parse (lines (ctx.buf ++ xs.flatten)) ctx = .ok u := by rwa [hbuf]
    exact ⟨_, deliver_ok ctx hnl hfirst, (handleLines_grows hys).1, (handleLines_grows hxs).2,
      (handleLines_grows hys).2⟩
  · intro ls line ls' result evs hsplit hevs
    have hsound := hlines line (by simp [hsplit])
    have htyped : ∀ ev ∈ evs, WellTyped ev := fun ev hev =>
      by_contra fun hbad => hsound ⟨_, hevs, ev, hev, hbad⟩
    obtain ⟨wes, hwes⟩ := reads_of_wellTyped htyped
    rw [hsplit, List.append_cons] at hc
    obtain ⟨v, hv, hrest⟩ := handleLines_front hc
    obtain ⟨u, hu, hline⟩ := handleLines_front hv
    have hframe := handleLine_reads hevs hwes u
    have hv' : handleLine parse line u = .ok v := by
      rw [← hline, handleLines]
      cases handleLine parse line u <;> rfl
    rw [hv'] at hframe
    cases hframe
    exact ⟨u, _, wes, hu, hv, hwes, rfl, (handleLines_grows hrest).1, rfl⟩

section samples

def goodLine : Bytes :=
  text "\x7b\"result\":\x7b\"header\":\x7b\"revision\":\"7\"\x7d," ++
    text "\"events\":[\x7b\"kv\":\x7b\"key\":\"L2E=\"\x7d\x7d]\x7d\x7d"

def badLine : Bytes := text "\x7b\"result\":\x7b\"events\":[1]\x7d\x7d"

def parseTwo (line : Bytes) : Option Json :=
  if line = goodLine then
    some (.object [("result", .object [("header", .object [("revision", .string (text "7"))]),
      ("events", .array [.object [("kv", .object [("key", .string (text "L2E="))])]])])])
  else if line = badLine then some (.object [("result", .object [("events", .array [.number 1])])])
  else none

def sampleEvent : WatchEvent := ⟨.put, text "/a", []⟩

def sampleChunks : List Bytes := [goodLine.take 30, goodLine.drop 30 ++ [10, 10, 110], [111]]

theorem chunks_reassembled_sample : ∃ t, deliver parseTwo sampleChunks ⟨[], [], 4⟩ = .ok t ∧
    watchWrite parseTwo false sampleChunks.flatten ⟨[], [], 4⟩ =
      .ok (t, sampleChunks.flatten.length) ∧
    t.calls = [(sampleEvent, 4)] ∧ t.lastRevision = 7 ∧ t.buf = text "no" := by
  obtain ⟨t, c, hchunks, hwhole, hlines, ht, -, hframes⟩ :=
    chunks_reassembled parseTwo ⟨[], [], 4⟩ rfl sampleChunks (by decide +kernel)
  have hsplit : lines sampleChunks.flatten = [] ++ goodLine :: [[]] := by decide +kernel
  obtain ⟨u, v, wes, hu, hv, hwes, hcalls, -, hrevision⟩ := hframes [] goodLine [[]] _ _ hsplit rfl
  rw [hsplit] at hlines
  cases hu
  cases hv
  cases hlines
  obtain rfl : wes = [sampleEvent] := by
    cases hwes with
    | cons hev hrest =>
      cases hrest
      cases hev
      rfl
  refine ⟨t, hchunks, hwhole, ?_, ?_, ?_⟩
  · rw [ht]
    exact hcalls
  · rw [ht]
    exact hrevision
  · rw [ht]
    decide +kernel

end samples

section containment

def WellFormed (parse : Bytes → Option Json) (line : Bytes) : Prop :=
  ∃ x ∈ lineEvents parse line, ∀ ev ∈ x.2, WellTyped ev

instance (parse : Bytes → Option Json) : DecidablePred (WellFormed parse) := fun line =>
  inferInstanceAs (Decidable (∃ x ∈ lineEvents parse line, ∀ ev ∈ x.2, WellTyped ev))

/-- Each call takes its chunk, keeps the bytes after the last newline so far, and has handled the
well-formed lines so far as if there were no others. -/
def Contained (parse : Bytes → Option Json) (ctx : WatchCtx) (chunks : List Bytes) : Prop :=
  ∀ xs chunk ys, chunks = xs ++ chunk :: ys → ∃ u v c, deliver parse xs ctx = .ok u ∧
    watchWrite parse false chunk u = .ok (v, chunk.length) ∧
    v.buf = tail (xs.flatten ++ chunk) ∧
    handleLines parse ((lines (xs.flatten ++ chunk)).filter (WellFormed parse)) ctx = .ok c ∧
    v.passed = c.passed ∧ v.lastRevision = c.lastRevision

variable {parse : Bytes → Option Json} {ctx c : WatchCtx} {line : Bytes}

lemma handleLines_wellFormed {ls : List Bytes} (hls : ∀ line ∈ ls, ¬ Throws parse line)
    (ctx : WatchCtx) :
    handleLines parse (ls.filter (WellFormed parse)) ctx = handleLines parse ls ctx := by
  induction ls generalizing ctx with
  | nil => rfl
  | cons line ls ih =>
    rw [List.forall_mem_cons] at hls
    obtain ⟨hsound, hls⟩ := hls
    by_cases hwf : WellFormed parse line
    · rw [List.filter_cons_of_pos (by simpa using hwf), handleLines, handleLines]
      cases handleLine parse line ctx with
      | error e => rfl
      | ok u => exact ih hls u
    · have hnone : lineEvents parse line = none := by
        cases hline : lineEvents parse line with
        | none => rfl
        | some x =>
          exact absurd
            ⟨x, hline, fun ev hev => by_contra fun hbad => hsound ⟨x, hline, ev, hev, hbad⟩⟩ hwf
      rw [List.filter_cons_of_neg (by simpa using hwf), ih hls, handleLines, handleLine_eq, hnone]
      rfl

/-- All calls contain what is malformed just when no line throws after it was parsed. -/
theorem contained_iff (parse : Bytes → Option Json) (ctx : WatchCtx) (hbuf : ctx.buf = [])
    (chunks : List Bytes) :
    Contained parse ctx chunks ↔ ∀ line ∈ lines chunks.flatten, ¬ Throws parse line := by
  have hnl : 10 ∉ ctx.buf := by simp [hbuf]
  constructor
  · intro hcontained
    rw [← handleLines_iff ctx]
    cases hstream : handleLines parse (lines chunks.flatten) ctx with
    | ok c => exact ⟨c, rfl⟩
    | error e =>
      have herror : handleLines parse (lines (ctx.buf ++ chunks.flatten)) ctx = .error e := by
        rwa [hbuf]
      obtain ⟨e', he⟩ := deliver_error ctx hnl herror
      rcases List.eq_nil_or_concat' chunks with rfl | ⟨xs, chunk, rfl⟩
      · cases he
      · obtain ⟨u, v, c, hxs, hchunk, -⟩ := hcontained xs chunk [] rfl
        rw [deliver_append, hxs] at he
        change (watchWrite parse false chunk u).bind _ = _ at he
        rw [hchunk] at he
        cases he
  · rintro hlines xs chunk ys rfl
    obtain ⟨hsplit, -⟩ := lines_append (xs.flatten ++ chunk) ys.flatten
    rw [List.flatten_append, List.flatten_cons, ← List.append_assoc, hsplit] at hlines
    have hsound : ∀ line ∈ lines (xs.flatten ++ chunk), ¬ Throws parse line := fun line hline =>
      hlines line (List.mem_append_left _ hline)
    obtain ⟨c, hc⟩ := (handleLines_iff ctx).mpr hsound
    have hwf := handleLines_wellFormed hsound ctx
    obtain ⟨hlines', htail⟩ := lines_append xs.flatten chunk
    rw [hc] at hwf
    rw [hlines', handleLines_append] at hc
    cases hxs : handleLines parse (lines xs.flatten) ctx with
    | error e =>
      rw [hxs] at hc
      cases hc
    | ok u =>
      rw [hxs] at hc
      have hfirst : handleLines parse (lines (ctx.buf ++ xs.flatten)) ctx = .ok u := by rwa [hbuf]
      have hchunk : handleLines parse (lines (tail xs.flatten ++ chunk)) { u with
          buf := tail xs.flatten } =
          .ok { c with buf := tail xs.flatten } := by
        rw [handleLines_buf]
        exact congrArg (withBuf _) hc
      have hu := deliver_ok ctx hnl hfirst
      rw [hbuf, List.nil_append] at hu
      exact ⟨_, _, c, hu, watchWrite_ok hchunk, htail.symm, hwf, rfl, rfl⟩

/-- A line whose event is no object throws out of the call. -/
theorem badLine_uncontained : ¬ Contained parseTwo ⟨[], [], 4⟩ [badLine ++ [10]] := by
  intro h
  obtain ⟨u, v, -, hu, hv, -⟩ := h [] (badLine ++ [10]) [] rfl
  cases hu
  have hthrown : watchWrite parseTwo false (badLine ++ [10]) ⟨[], [], 4⟩ = .error ⟨[], [], 4⟩ := rfl
  rw [hthrown] at hv
  cases hv

theorem contained_iff_sample :
    Contained parseTwo ⟨[], [], 4⟩ [goodLine.take 30, goodLine.drop 30 ++ [10, 10, 110]] :=
  (contained_iff parseTwo ⟨[], [], 4⟩ rfl _).mpr (by decide +kernel)

end containment

end KimRpc.Discovery
