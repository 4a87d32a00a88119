import KimRpc.Wire.Frames
import Mathlib.Data.List.AList

/-! The receive loop of the client channel: three exact reads for each frame,
then the pending call with the frame's id is taken from the table and completed. -/

namespace KimRpc.Client

open Library.LittleEndian Wire

/-- The call stands for its response, controller and done closure. -/
structure Pending where
  call : ℕ
  deadline : Option ℕ
  deriving DecidableEq, Repr

abbrev PendingMap := AList (fun _ : UInt64 => Pending)

inductive Reading where
  | size (got : Bytes)
  | id (size : ℕ) (got : Bytes)
  | body (size : ℕ) (id : UInt64) (got : Bytes)
  | frame (id : UInt64) (body : Bytes)
  | illegal
  deriving DecidableEq, Repr

namespace Reading

def wants : Reading → ℕ
  | .size got => 4 - got.length
  | .id _ got => 8 - got.length
  | .body n _ got => n - 8 - got.length
  | .frame _ _ | .illegal => 0

def gotSize (n : ℕ) : Reading := if n < 8 then .illegal else .id n []

def gotId (n : ℕ) (i : UInt64) : Reading := if n - 8 = 0 then .frame i [] else .body n i []

def recv (r : Reading) (piece : Bytes) : Reading :=
  match r with
  | .size got =>
    if (got ++ piece).length < 4 then .size (got ++ piece) else gotSize (value (got ++ piece))
  | .id n got =>
    if (got ++ piece).length < 8 then .id n (got ++ piece)
    else gotId n (UInt64.ofNat (value (got ++ piece)))
  | .body n i got =>
    if (got ++ piece).length < n - 8 then .body n i (got ++ piece) else .frame i (got ++ piece)
  | .frame i b => .frame i b
  | .illegal => .illegal

lemma recv_cons (r : Reading) (b : UInt8) (piece : Bytes) (hp : piece ≠ [])
    (h : piece.length + 1 ≤ r.wants) :
    r.recv (b :: piece) = (r.recv [b]).recv piece ∧ piece.length ≤ (r.recv [b]).wants ∧
      (∀ i bs, r.recv [b] ≠ .frame i bs) := by
  have hpos := List.length_pos_iff.mpr hp
  cases r with
  | size got =>
    have hl : (got ++ [b]).length < 4 := by simp [wants] at h ⊢; omega
    simp only [recv, if_pos hl, wants, List.append_assoc, List.singleton_append]
    exact ⟨trivial, by simp [wants] at h ⊢; omega, by simp⟩
  | id n got =>
    have hl : (got ++ [b]).length < 8 := by simp [wants] at h ⊢; omega
    simp only [recv, if_pos hl, wants, List.append_assoc, List.singleton_append]
    exact ⟨trivial, by simp [wants] at h ⊢; omega, by simp⟩
  | body n i got =>
    have hl : (got ++ [b]).length < n - 8 := by simp [wants] at h ⊢; omega
    simp only [recv, if_pos hl, wants, List.append_assoc, List.singleton_append]
    exact ⟨trivial, by simp [wants] at h ⊢; omega, by simp⟩
  | frame i bs => simp [wants] at h
  | illegal => simp [wants] at h

end Reading

structure Completion (Msg : Type) where
  id : UInt64
  pend : Pending
  response : Option Msg
  deriving DecidableEq

structure Receiving (Msg : Type) where
  reading : Reading
  pending : PendingMap
  completed : List (Completion Msg)

namespace Receiving

variable {Msg : Type} (parse : ℕ → Bytes → Option Msg)

def takeFrame (s : Receiving Msg) (id : UInt64) (body : Bytes) : Receiving Msg :=
  match s.pending.lookup id with
  | none => { s with reading := .size [] }
  | some pend =>
    { reading := .size [], pending := s.pending.erase id,
      completed := s.completed ++ [⟨id, pend, parse pend.call body⟩] }

def settle (s : Receiving Msg) : Receiving Msg :=
  match s.reading with
  | .frame id body => takeFrame parse s id body
  | _ => s

def recvPiece (s : Receiving Msg) (piece : Bytes) : Receiving Msg :=
  settle parse { s with reading := s.reading.recv piece }

/-- The loop consumes a stream in pieces of whatever sizes `recv` returns. -/
inductive Receives : Receiving Msg → Bytes → Receiving Msg → Prop
  | done (s) : Receives s [] s
  | recv {s t piece rest} : piece ≠ [] → piece.length ≤ s.reading.wants →
      Receives (recvPiece parse s piece) rest t → Receives s (piece ++ rest) t

def recvByte (s : Receiving Msg) (b : UInt8) : Receiving Msg := recvPiece parse s [b]

lemma recvPiece_eq_foldl (s : Receiving Msg) (piece : Bytes) (hp : piece ≠ [])
    (h : piece.length ≤ s.reading.wants) :
    recvPiece parse s piece = piece.foldl (recvByte parse) s := by
  induction piece generalizing s with
  | nil => exact absurd rfl hp
  | cons b piece ih =>
    by_cases hn : piece = []
    · subst hn
      rfl
    · obtain ⟨he, hw, hf⟩ := s.reading.recv_cons b piece hn (by simpa using h)
      have hs : recvByte parse s b = { s with reading := s.reading.recv [b] } := by
        simp only [recvByte, recvPiece, settle]
      rw [List.foldl_cons, hs, ← ih _ hn hw]
      simp only [recvPiece, he]

lemma Receives.eq_foldl {s t : Receiving Msg} {bs : Bytes} (h : Receives parse s bs t) :
    t = bs.foldl (recvByte parse) s := by
  induction h with
  | done => rfl
  | recv hp hw _ ih => rw [ih, List.foldl_append, recvPiece_eq_foldl parse _ _ hp hw]

variable (pending : PendingMap) (completed : List (Completion Msg))

lemma recv_size (n : ℕ) (h : 8 + n < 2 ^ 32) :
    recvPiece parse ⟨.size [], pending, completed⟩ (encode 4 (8 + n)) =
      ⟨.id (8 + n) [], pending, completed⟩ := by
  have hv : value (encode 4 (8 + n)) = 8 + n := value_encode_of_lt (by omega)
  simp [recvPiece, settle, Reading.recv, Reading.gotSize, hv]

lemma value_id (id : UInt64) : UInt64.ofNat (value (encode 8 id.toNat)) = id := by
  have hlt : id.toNat < 256 ^ 8 := id.toNat_lt
  rw [value_encode_of_lt hlt]
  exact UInt64.ofNat_toNat

lemma recv_id (n : ℕ) (id : UInt64) (hn : n ≠ 0) :
    recvPiece parse ⟨.id (8 + n) [], pending, completed⟩ (encode 8 id.toNat) =
      ⟨.body (8 + n) id [], pending, completed⟩ := by
  simp [recvPiece, settle, Reading.recv, Reading.gotId, value_id, hn]

lemma recv_id_empty (id : UInt64) :
    recvPiece parse ⟨.id 8 [], pending, completed⟩ (encode 8 id.toNat) =
      takeFrame parse ⟨.size [], pending, completed⟩ id [] := by
  simp [recvPiece, settle, Reading.recv, Reading.gotId, value_id, takeFrame]

lemma recv_body (id : UInt64) (body : Bytes) :
    recvPiece parse ⟨.body (8 + body.length) id [], pending, completed⟩ body =
      takeFrame parse ⟨.size [], pending, completed⟩ id body := by
  simp [recvPiece, settle, Reading.recv, takeFrame]

variable {parse}

lemma Receives.responseFrame {s t : Receiving Msg} {rest : Bytes} (id : UInt64) (body : Bytes)
    (hr : s.reading = .size []) (hb : body.length + 8 < 2 ^ 32)
    (h : Receives parse (takeFrame parse s id body) rest t) :
    Receives parse s (Wire.responseFrame id body ++ rest) t := by
  obtain ⟨reading, pending, completed⟩ := s
  subst hr
  have hne : ∀ n x, encode (n + 1) x ≠ [] := fun n x => by simp [encode]
  simp only [Wire.responseFrame, List.append_assoc]
  refine .recv (hne 3 _) (by simp [Reading.wants]) ?_
  rw [recv_size parse pending completed body.length (by omega)]
  refine .recv (hne 7 _) (by simp [Reading.wants]) ?_
  by_cases hn : body = []
  · subst hn
    rw [List.length_nil, Nat.add_zero, recv_id_empty]
    exact h
  · rw [recv_id parse pending completed body.length id (by simpa using hn)]
    refine .recv hn (by simp [Reading.wants]) ?_
    rw [recv_body]
    exact h

lemma takeFrame_reading (s : Receiving Msg) (id : UInt64) (body : Bytes) :
    (takeFrame parse s id body).reading = .size [] := by
  rw [takeFrame]
  split <;> rfl

variable (parse)

def takeFrames (s : Receiving Msg) (frames : List (UInt64 × Bytes)) : Receiving Msg :=
  frames.foldl (fun t f => takeFrame parse t f.1 f.2) s

lemma takeFrames_reading (s : Receiving Msg) (frames : List (UInt64 × Bytes))
    (hr : s.reading = .size []) :
    (takeFrames parse s frames).reading = .size [] := by
  induction frames generalizing s with
  | nil => exact hr
  | cons f frames ih => exact ih _ (takeFrame_reading s f.1 f.2)

lemma receives_frames (s : Receiving Msg) (frames : List (UInt64 × Bytes))
    (hr : s.reading = .size [])
    (hb : ∀ f ∈ frames, f.2.length + 8 < 2 ^ 32) :
    Receives parse s (frames.flatMap (fun f => responseFrame f.1 f.2))
      (takeFrames parse s frames) := by
  induction frames generalizing s with
  | nil => exact .done s
  | cons f frames ih =>
    rw [List.flatMap_cons]
    exact .responseFrame f.1 f.2 hr (hb f (by simp))
      (ih _ (takeFrame_reading s f.1 f.2) (fun g hg => hb g (by simp [hg])))

lemma takeFrame_lookup (s : Receiving Msg) (id key : UInt64) (body : Bytes) :
    (takeFrame parse s id body).pending.lookup key = if key = id then none
      else s.pending.lookup key := by
  rw [takeFrame]
  by_cases hk : key = id
  · subst hk
    cases hp : s.pending.lookup key with
    | none => simp [hp]
    | some pend => simp [AList.lookup_erase]
  · cases hp : s.pending.lookup id with
    | none => simp [hk]
    | some pend => simp [hk, AList.lookup_erase_ne hk]

lemma takeFrames_lookup (s : Receiving Msg) (frames : List (UInt64 × Bytes)) (key : UInt64) :
    (takeFrames parse s frames).pending.lookup key =
      if key ∈ frames.map Prod.fst then none else s.pending.lookup key := by
  induction frames generalizing s with
  | nil => simp [takeFrames]
  | cons f frames ih =>
    have hi := ih (takeFrame parse s f.1 f.2)
    rw [takeFrame_lookup] at hi
    rw [takeFrames, List.foldl_cons]
    refine hi.trans ?_
    by_cases hk : key = f.1
    · simp [hk]
    · simp only [List.map_cons, List.mem_cons, hk, false_or, if_false]

/-- The completion of a pending call by the first frame with its id. -/
def matched (key : UInt64) (pend : Option Pending) (frame : Option (UInt64 × Bytes)) :
    List (Completion Msg) :=
  match pend, frame with
  | some pend, some frame => [⟨key, pend, parse pend.call frame.2⟩]
  | _, _ => []

lemma takeFrame_completed (s : Receiving Msg) (id key : UInt64) (body : Bytes) :
    (takeFrame parse s id body).completed.filter (fun c => c.id = key) =
      s.completed.filter (fun c => c.id = key) ++
        if key = id then matched parse key (s.pending.lookup key) (some (id, body)) else [] := by
  rw [takeFrame]
  by_cases hk : key = id
  · subst hk
    cases hp : s.pending.lookup key <;> simp [matched]
  · cases hp : s.pending.lookup id <;> simp [hk, Ne.symm hk]

lemma takeFrames_completed (s : Receiving Msg) (frames : List (UInt64 × Bytes)) (key : UInt64) :
    (takeFrames parse s frames).completed.filter (fun c => c.id = key) =
      s.completed.filter (fun c => c.id = key) ++
        matched parse key (s.pending.lookup key) (frames.find? (fun f => f.1 = key)) := by
  induction frames generalizing s with
  | nil => cases s.pending.lookup key <;> simp [takeFrames, matched]
  | cons f frames ih =>
    have hi := ih (takeFrame parse s f.1 f.2)
    rw [takeFrame_completed, takeFrame_lookup] at hi
    rw [takeFrames, List.foldl_cons]
    refine hi.trans ?_
    by_cases hk : key = f.1
    · subst hk
      simp [matched]
    · simp [hk, Ne.symm hk]

end Receiving

/-- A response frame as one of the two servers sends it. -/
def SentByServer (frame : UInt64 × Bytes) (bs : Bytes) : Prop :=
  bs = onPoolDone frame.1 (some frame.2) ∨ sendRpcResponse frame.1 (some frame.2) = some bs

lemma sentByServer_flatten {frames : List (UInt64 × Bytes)} {wire : List Bytes}
    (h : List.Forall₂ SentByServer frames wire) :
    wire.flatten = frames.flatMap (fun f => responseFrame f.1 f.2) := by
  induction h with
  | nil => rfl
  | @cons f bs frames wire hf _ ih =>
    have hbs : bs = responseFrame f.1 f.2 := by
      rcases hf with hf | hf
      · exact hf
      · exact (Option.some.inj hf).symm
    rw [List.flatten_cons, List.flatMap_cons, ih, hbs]

/-- However the responses are ordered and cut, the loop returns to the top of an
iteration, each pending call with an id among them is completed once with the
body of the first frame bearing it, and every other call stays pending. -/
theorem responses_matched {Msg : Type} (parse : ℕ → Bytes → Option Msg) (pending : PendingMap)
    (frames : List (UInt64 × Bytes)) (wire : List Bytes)
    (hwire : List.Forall₂ SentByServer frames wire)
    (hsize : ∀ f ∈ frames, f.2.length + 8 < 2 ^ 32) :
    (∃ t, Receiving.Receives parse ⟨.size [], pending, []⟩ wire.flatten t) ∧
      ∀ t, Receiving.Receives parse ⟨.size [], pending, []⟩ wire.flatten t →
        t.reading = .size [] ∧
        (∀ id, t.pending.lookup id = if id ∈ frames.map Prod.fst then none else pending.lookup id) ∧
        ∀ id, t.completed.filter (fun c => c.id = id) =
          match pending.lookup id, frames.find? (fun f => f.1 = id) with
          | some pend, some frame => [⟨id, pend, parse pend.call frame.2⟩]
          | _, _ => [] := by
  have hr := Receiving.receives_frames parse ⟨.size [], pending, []⟩ frames rfl hsize
  rw [sentByServer_flatten hwire]
  refine ⟨⟨_, hr⟩, ?_⟩
  intro t ht
  rw [ht.eq_foldl, ← hr.eq_foldl]
  refine ⟨Receiving.takeFrames_reading parse _ frames rfl, fun id => ?_, fun id => ?_⟩
  · exact Receiving.takeFrames_lookup parse _ frames id
  · exact Receiving.takeFrames_completed parse _ frames id

def samplePending : PendingMap := (AList.singleton 2 ⟨1, none⟩).insert 1 ⟨0, none⟩

def sampleFrames : List (UInt64 × Bytes) := [(2, [65]), (9, [66]), (2, [67])]

def sampleWire : List Bytes :=
  [onPoolDone 2 (some [65]), responseFrame 9 [66], onPoolDone 2 (some [67])]

theorem responses_matched_sample :
    ∃ t, Receiving.Receives (fun _ bs => some bs) ⟨.size [], samplePending, []⟩ sampleWire.flatten
      t ∧
      t.pending.lookup 1 = some ⟨0, none⟩ ∧ t.pending.lookup 2 = none ∧
      t.completed.filter (fun c => c.id = 2) = [⟨2, ⟨1, none⟩, some [65]⟩] := by
  have hwire : List.Forall₂ SentByServer sampleFrames sampleWire :=
    .cons (.inl rfl) (.cons (.inr rfl) (.cons (.inl rfl) .nil))
  obtain ⟨⟨t, ht⟩, h⟩ :=
    responses_matched (fun _ bs => some bs) samplePending sampleFrames sampleWire hwire
    (by decide)
  obtain ⟨_, hp, hc⟩ := h t ht
  exact ⟨t, ht, (hp 1).trans rfl, (hp 2).trans rfl, (hc 2).trans rfl⟩

end KimRpc.Client
