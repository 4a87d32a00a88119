import KimRpc.Server.Pipelining

/-! The two servers read one stream: what the uring server dispatches is a
prefix of what the muduo server dispatches, and all of it when no frame is
rejected. -/

namespace KimRpc.Server

open Library.StreamDecoding Library.HeaderFraming Library.LittleEndian Wire

namespace Decoding

variable (D : Decoding)

def Rejected (stream : Bytes) : Prop :=
  ∃ frames : List Bytes, ∃ rest, stream = frames.flatten ++ rest ∧
  (∀ frame ∈ frames, ∃ r, D.WellFormed frame r) ∧
    D.Broken rest

variable {D}

lemma Broken.rejected {stream : Bytes} (h : D.Broken stream) : D.Rejected stream :=
  ⟨[], stream, rfl, by simp, h⟩

lemma Rejected.cons {frame rest : Bytes} {r : Request} (hf : D.WellFormed frame r)
    (h : D.Rejected rest) :
    D.Rejected (frame ++ rest) := by
  obtain ⟨frames, tail, rfl, hframes, hb⟩ := h
  refine ⟨frame :: frames, tail, by simp, ?_, hb⟩
  rw [List.forall_mem_cons]
  exact ⟨⟨r, hf⟩, hframes⟩

variable (D)

lemma Grammar.rejected {stream : Bytes} {requests : List Request} {status : Status UInt8}
    (h : D.Grammar stream requests status) (hs : status = .stopped) : D.Rejected stream := by
  induction h with
  | frame hf _ ih => exact (ih hs).cons hf
  | broken hb => exact hb.rejected
  | incomplete _ => cases hs

lemma rejected_iff (stream : Bytes) : D.Rejected stream ↔
    (D.uringDecoder.drain stream).2 = .stopped := by
  constructor
  · rintro ⟨frames, rest, rfl, hframes, hb⟩
    induction frames with
    | nil => rw [List.flatten_nil, List.nil_append, D.uringDecoder.drain_stop (D.next_broken hb)]
    | cons frame frames ih =>
      rw [List.forall_mem_cons] at hframes
      obtain ⟨⟨r, hf⟩, hframes⟩ := hframes
      rw [List.flatten_cons, List.append_assoc, D.uringDecoder.drain_emit (D.next_wellFormed _ hf)]
      exact ih hframes
  · exact (D.grammar_drain stream).rejected

lemma Grammar.prefix_muduo {stream : Bytes} {requests : List Request} {status : Status UInt8}
    (h : D.Grammar stream requests status) : requests <+: (D.muduoDecoder.drain stream).1 := by
  induction h with
  | frame hf _ ih =>
    rw [D.muduoDecoder.drain_emit (D.muduo_wellFormed _ hf)]
    exact (List.prefix_append_right_inj [_]).mpr ih
  | broken hb => exact List.nil_prefix
  | incomplete hi => exact List.nil_prefix

lemma Grammar.eq_muduo {stream : Bytes} {requests : List Request} {status : Status UInt8}
    (h : D.Grammar stream requests status) (hr : ¬ D.Rejected stream) :
    requests = (D.muduoDecoder.drain stream).1 := by
  induction h with
  | frame hf _ ih =>
    rw [D.muduoDecoder.drain_emit (D.muduo_wellFormed _ hf), ← ih (fun h => hr (h.cons hf)),
      List.singleton_append]
  | broken hb => exact absurd hb.rejected hr
  | incomplete hi => rw [D.muduoDecoder.drain_wait (D.muduo_incomplete hi)]

theorem servers_decode_alike (chunks chunks' : List Bytes)
    (hstream : chunks.flatten = chunks'.flatten) :
    (chunks.foldl D.recvChunk accepted).1 <+: (chunks'.foldl D.messageChunk accepted).1 ∧
      (¬ D.Rejected chunks.flatten →
        (chunks.foldl D.recvChunk accepted).1 = (chunks'.foldl D.messageChunk accepted).1) := by
  have hu : chunks.foldl D.recvChunk accepted = D.uringDecoder.drain chunks.flatten :=
    D.uringDecoder.feed_stream chunks
  have hm : chunks'.foldl D.messageChunk accepted = D.muduoDecoder.drain chunks'.flatten :=
    D.muduoDecoder.feed_stream chunks'
  have hg := D.grammar_drain chunks.flatten
  rw [hu, hm, ← hstream]
  exact ⟨hg.prefix_muduo, hg.eq_muduo⟩

theorem servers_decode_alike_sample :
    ([[10, 0, 0, 0, 10, 1, 85, 18, 1, 76, 24, 3, 32, 1, 10, 1, 97, 8, 0, 0, 0, 10, 1, 85, 18, 1, 76,
      32, 2]].foldl
      (Decoding.mk protoCodec.parseFromString sampleServices).recvChunk accepted).1 =
    ([[10, 0, 0], [0, 10, 1, 85, 18, 1, 76, 24, 3, 32, 1, 10, 1, 97, 8],
      [0, 0, 0, 10, 1, 85, 18, 1, 76, 32, 2]].foldl
      (Decoding.mk protoCodec.parseFromString sampleServices).messageChunk accepted).1 := by
  apply (servers_decode_alike _ _ _ rfl).2
  rw [rejected_iff]
  decide

end Decoding

end KimRpc.Server
