import KimRpc.Server.Requests

/-! The grammar of request streams, and the server's decoder as its parser. -/

namespace KimRpc.Server

open Library.StreamDecoding Library.HeaderFraming Library.LittleEndian Wire

namespace Decoding

variable (D : Decoding)

structure WellFormed (frame : Bytes) (r : Request) : Prop where
  parts : ∃ header h args, frame = encode 4 header.length ++ header ++ args ∧
    header.length ≤ kMaxHeaderSize ∧ D.parseHeader header = some h ∧
    args.length = h.argsSize.toNat ∧ args.length ≤ kMaxBodySize ∧ D.Registered h args ∧
    r = request h args

inductive Broken : Bytes → Prop
  | headerSize {n} (rest) : n < 2 ^ 32 → kMaxHeaderSize < n → Broken (encode 4 n ++ rest)
  | header {header} (rest) : header.length ≤ kMaxHeaderSize → D.parseHeader header = none →
      Broken (encode 4 header.length ++ header ++ rest)
  | argsSize {header h} (rest) : header.length ≤ kMaxHeaderSize → D.parseHeader header = some h →
      kMaxBodySize < h.argsSize.toNat → Broken (encode 4 header.length ++ header ++ rest)
  | request {header h args} (rest) : header.length ≤ kMaxHeaderSize →
      D.parseHeader header = some h →
      args.length = h.argsSize.toNat → args.length ≤ kMaxBodySize → ¬ D.Registered h args →
      Broken (encode 4 header.length ++ header ++ args ++ rest)

inductive Incomplete : Bytes → Prop
  | headerSize {part} : part.length < 4 → Incomplete part
  | header {n part} : n ≤ kMaxHeaderSize → part.length < n → Incomplete (encode 4 n ++ part)
  | args {header h part} : header.length ≤ kMaxHeaderSize → D.parseHeader header = some h →
      h.argsSize.toNat ≤ kMaxBodySize → part.length < h.argsSize.toNat →
      Incomplete (encode 4 header.length ++ header ++ part)

inductive Grammar : Bytes → List Request → Status UInt8 → Prop
  | frame {frame rest r requests status} : D.WellFormed frame r → Grammar rest requests status →
      Grammar (frame ++ rest) (r :: requests) status
  | broken {stream} : D.Broken stream → Grammar stream [] .stopped
  | incomplete {stream} : D.Incomplete stream → Grammar stream [] (.pending stream)

lemma next_wellFormed {frame : Bytes} {r : Request} (rest : Bytes) (hf : D.WellFormed frame r) :
    D.uringDecoder.next (frame ++ rest) = .emit [r] rest := by
  obtain ⟨header, h, args, rfl, hheader, hparse, hargs, hbody, hreg, rfl⟩ := hf.parts
  have hlt : header.length < 2 ^ 32 := hheader.trans_lt (by decide)
  have hfront :=
    Framing.Front.frame (F := D.uringFraming) rest hlt (by simpa [uringFraming] using hheader)
      hparse
    (by simpa [uringFraming, ← hargs] using hbody) hargs
  rw [uring_next, List.append_assoc, List.append_assoc, hfront.next_eq]
  simp [uringFraming, (D.registered_iff h args).mpr hreg, Framing.finish]

lemma next_broken {stream : Bytes} (h : D.Broken stream) : D.uringDecoder.next stream = .stop := by
  rw [uring_next]
  cases h with
  | headerSize rest hn hbig =>
    exact (Framing.Front.badSize rest hn (by simpa [uringFraming] using hbig)).next_eq
  | header rest hheader hparse =>
    rw [List.append_assoc]
    exact (Framing.Front.badHeader rest (hheader.trans_lt (by decide))
      (by simpa [uringFraming] using hheader)
      hparse).next_eq
  | argsSize rest hheader hparse hbig =>
    rw [List.append_assoc]
    exact (Framing.Front.badBody rest (hheader.trans_lt (by decide))
      (by simpa [uringFraming] using hheader)
      hparse (by simpa [uringFraming] using hbig)).next_eq
  | @request header h args rest hheader hparse hargs hbody hreg =>
    have hf := Framing.Front.frame (F := D.uringFraming) rest (hheader.trans_lt (by decide))
      (by simpa [uringFraming] using hheader) hparse (by simpa [uringFraming, ← hargs] using hbody)
        hargs
    rw [List.append_assoc, List.append_assoc, hf.next_eq]
    simp [uringFraming, (D.registered_iff h args).not.mpr hreg, Framing.finish]

lemma next_incomplete {stream : Bytes} (h : D.Incomplete stream) :
    D.uringDecoder.next stream = .wait := by
  rw [uring_next]
  cases h with
  | headerSize hl => exact (Framing.Front.shortSize hl).next_eq
  | header hn hl =>
    exact (Framing.Front.shortHeader (hn.trans_lt (by decide)) (by simpa [uringFraming] using hn)
      hl).next_eq
  | args hheader hparse hbody hl =>
    rw [List.append_assoc]
    exact (Framing.Front.shortBody (hheader.trans_lt (by decide))
      (by simpa [uringFraming] using hheader) hparse
      (by simpa [uringFraming] using hbody) hl).next_eq

lemma muduo_wellFormed {frame : Bytes} {r : Request} (rest : Bytes) (hf : D.WellFormed frame r) :
    D.muduoDecoder.next (frame ++ rest) = .emit [r] rest := by
  obtain ⟨header, h, args, rfl, hheader, hparse, hargs, hbody, hreg, rfl⟩ := hf.parts
  have hfront := Framing.Front.frame (F := D.muduoFraming) rest (hheader.trans_lt (by decide)) rfl
    hparse rfl hargs
  rw [muduo_next, List.append_assoc, List.append_assoc, hfront.next_eq]
  simp [muduoFraming, (D.registered_iff h args).mpr hreg, Framing.finish]

lemma muduo_incomplete {stream : Bytes} (h : D.Incomplete stream) :
    D.muduoDecoder.next stream = .wait := by
  rw [muduo_next]
  cases h with
  | headerSize hl => exact (Framing.Front.shortSize hl).next_eq
  | header hn hl => exact (Framing.Front.shortHeader (hn.trans_lt (by decide)) rfl hl).next_eq
  | args hheader hparse hbody hl =>
    rw [List.append_assoc]
    exact (Framing.Front.shortBody (hheader.trans_lt (by decide)) rfl hparse rfl hl).next_eq

lemma front_cases (stream : Bytes) :
    (∃ frame r rest, D.WellFormed frame r ∧ stream = frame ++ rest) ∨ D.Broken stream ∨
    D.Incomplete stream := by
  obtain ⟨v, hv⟩ := D.uringFraming.front_exists stream
  cases hv with
  | shortSize hl => exact .inr (.inr (.headerSize hl))
  | badSize ys hn hok => exact .inr (.inl (.headerSize ys hn (by simpa [uringFraming] using hok)))
  | shortHeader hn hok hl => exact .inr (.inr (.header (by simpa [uringFraming] using hok) hl))
  | badHeader ys hn hok hp =>
    rw [← List.append_assoc]
    exact .inr (.inl (.header ys (by simpa [uringFraming] using hok) hp))
  | badBody ys hn hok hp hb =>
    rw [← List.append_assoc]
    exact .inr
      (.inl (.argsSize ys (by simpa [uringFraming] using hok) hp
        (by simpa [uringFraming] using hb)))
  | shortBody hn hok hp hb hl =>
    rw [← List.append_assoc]
    exact .inr
      (.inr (.args (by simpa [uringFraming] using hok) hp (by simpa [uringFraming] using hb) hl))
  | @frame header h args ys hn hok hp hb ha =>
    have hheader : header.length ≤ kMaxHeaderSize := by simpa [uringFraming] using hok
    have hargs : args.length = h.argsSize.toNat := ha
    have hbody : args.length ≤ kMaxBodySize := by simpa [uringFraming, ← hargs] using hb
    rw [← List.append_assoc, ← List.append_assoc]
    by_cases hreg : D.Registered h args
    · exact .inl ⟨_, _, ys, ⟨header, h, args, rfl, hheader, hp, hargs, hbody, hreg, rfl⟩, rfl⟩
    · exact .inr (.inl (.request ys hheader hp hargs hbody hreg))

lemma Grammar.drain_eq {stream : Bytes} {requests : List Request} {status : Status UInt8}
    (h : D.Grammar stream requests status) : D.uringDecoder.drain stream = (requests, status) := by
  induction h with
  | frame hf _ ih =>
    rw [D.uringDecoder.drain_emit (D.next_wellFormed _ hf), ih, List.singleton_append]
  | broken hb => exact D.uringDecoder.drain_stop (D.next_broken hb)
  | incomplete hi => exact D.uringDecoder.drain_wait (D.next_incomplete hi)

lemma grammar_drain (stream : Bytes) :
    D.Grammar stream (D.uringDecoder.drain stream).1 (D.uringDecoder.drain stream).2 := by
  induction stream using (measure List.length).wf.induction with
  | h stream ih =>
    rcases D.front_cases stream with ⟨frame, r, rest, hf, rfl⟩ | hb | hi
    · have hn := D.next_wellFormed rest hf
      rw [D.uringDecoder.drain_emit hn]
      exact .frame hf (ih rest (D.uringDecoder.emit_shorter hn))
    · rw [D.uringDecoder.drain_stop (D.next_broken hb)]
      exact .broken hb
    · rw [D.uringDecoder.drain_wait (D.next_incomplete hi)]
      exact .incomplete hi

/-- The chunks of a stream dispatch what the grammar reads from the whole stream,
the grammar has one reading, and the loop of `handleRecv` ends. -/
theorem chunks_follow_grammar (chunks : List Bytes) :
    D.Grammar chunks.flatten (chunks.foldl D.recvChunk accepted).1
      (chunks.foldl D.recvChunk accepted).2 ∧
      (∀ requests status, D.Grammar chunks.flatten requests status →
        chunks.foldl D.recvChunk accepted = (requests, status)) ∧
      ∀ input : Bytes, ∃ n, (D.uringDecoder.loop n input).isSome := by
  have hc : chunks.foldl D.recvChunk accepted = D.uringDecoder.drain chunks.flatten :=
    D.uringDecoder.feed_stream chunks
  rw [hc]
  refine ⟨D.grammar_drain chunks.flatten, ?_, ?_⟩
  · intro requests status hg
    exact hg.drain_eq
  · intro input
    exact ⟨_, D.uringDecoder.loop_isSome input (Nat.lt_succ_self _)⟩

end Decoding

end KimRpc.Server
