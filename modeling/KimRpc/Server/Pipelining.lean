import KimRpc.Server.RequestGrammar

/-! Pipelined calls of the client reach both servers unchanged. -/

namespace KimRpc.Server

open Library.StreamDecoding Library.HeaderFraming Library.LittleEndian Wire

def Sendable (codec : HeaderCodec) (serviceMap : Bytes → Option ServiceInfo) (r : Request) : Prop :=
  r.args.length ≤ kMaxBodySize ∧
    (Decoding.mk codec.parseFromString serviceMap).registered r.header r.args = true ∧
    ∃ header ∈ codec.serializeToString r.header, header.length ≤ kMaxHeaderSize

instance (codec : HeaderCodec) (serviceMap : Bytes → Option ServiceInfo) (r : Request) :
    Decidable (Sendable codec serviceMap r) := inferInstanceAs (Decidable (_ ∧ _ ∧ _))

namespace Sendable

variable {codec : HeaderCodec} {serviceMap : Bytes → Option ServiceInfo} {r : Request}

lemma frame_eq (h : Sendable codec serviceMap r) :
    ∃ header, sendRpcStr codec r = some (encode 4 header.length ++ header ++ r.args) ∧
      header.length ≤ kMaxHeaderSize ∧ codec.parseFromString header = some r.header := by
  obtain ⟨_, _, header, hser, hle⟩ := h
  refine ⟨header, ?_, hle, codec.parse_serialize hser⟩
  rw [sendRpcStr, show codec.serializeToString r.header = some header from hser, Option.map_some]

lemma argsSize_eq (h : Sendable codec serviceMap r) : r.header.argsSize.toNat = r.args.length := by
  have hle : r.args.length ≤ kMaxBodySize := h.1
  simp only [Request.header, UInt32.toNat_ofNat']
  exact Nat.mod_eq_of_lt (hle.trans_lt (by decide))

lemma wellFormed (h : Sendable codec serviceMap r) {frame : Bytes}
    (hf : sendRpcStr codec r = some frame) :
    (Decoding.mk codec.parseFromString serviceMap).WellFormed frame r := by
  obtain ⟨header, hs, hle, hp⟩ := h.frame_eq
  rw [hs] at hf
  cases Option.some.inj hf
  exact ⟨header, r.header, r.args, rfl, hle, hp, h.argsSize_eq.symm, h.1,
    (Decoding.registered_iff _ _ _).mp h.2.1, rfl⟩

end Sendable

lemma mapM_frames {codec : HeaderCodec} {serviceMap : Bytes → Option ServiceInfo}
    {calls : List Request}
    (hcalls : ∀ r ∈ calls, Sendable codec serviceMap r) :
    calls.mapM (sendRpcStr codec) = some (calls.map (fun r => (sendRpcStr codec r).getD [])) := by
  induction calls with
  | nil => rfl
  | cons r calls ih =>
    obtain ⟨header, hs, _⟩ := (hcalls r (by simp)).frame_eq
    simp [List.mapM_cons, hs, ih (fun q hq => hcalls q (by simp [hq]))]

/-- Both servers dispatch the calls whose frames were concatenated, in order and
with no byte left, however the bytes arrive. -/
theorem pipelined_calls_dispatched (codec : HeaderCodec) (serviceMap : Bytes → Option ServiceInfo)
    (calls : List Request) (hcalls : ∀ r ∈ calls, Sendable codec serviceMap r) :
    ∃ frames, calls.mapM (sendRpcStr codec) = some frames ∧
      ∀ chunks : List Bytes, chunks.flatten = frames.flatten →
        chunks.foldl (Decoding.mk codec.parseFromString serviceMap).recvChunk Decoding.accepted =
          (calls, .pending []) ∧
        chunks.foldl (Decoding.mk codec.parseFromString serviceMap).messageChunk Decoding.accepted =
          (calls, .pending []) := by
  let D := Decoding.mk codec.parseFromString serviceMap
  let frame : Request → Bytes := fun r => (sendRpcStr codec r).getD []
  have hframe : ∀ r ∈ calls, sendRpcStr codec r = some (frame r) := by
    intro r hr
    obtain ⟨header, hs, _⟩ := (hcalls r hr).frame_eq
    simp [frame, hs]
  have hdrain : ∀ d : Decoder UInt8 Request,
      (∀ r ∈ calls, ∀ rest, d.next (frame r ++ rest) = .emit [r] rest) →
      d.drain (calls.map frame).flatten = (calls, .pending []) := by
    intro d hd
    have h := d.drain_frames frame (fun r => [r]) calls hd
    rwa [List.flatMap_singleton', List.flatMap_def] at h
  refine ⟨calls.map frame, mapM_frames hcalls, ?_⟩
  intro chunks hchunks
  constructor
  · have hs : chunks.foldl D.recvChunk Decoding.accepted = D.uringDecoder.drain chunks.flatten :=
      D.uringDecoder.feed_stream chunks
    rw [hs, hchunks]
    exact hdrain _
      (fun r hr rest => D.next_wellFormed rest ((hcalls r hr).wellFormed (hframe r hr)))
  · have hs : chunks.foldl D.messageChunk Decoding.accepted = D.muduoDecoder.drain chunks.flatten :=
      D.muduoDecoder.feed_stream chunks
    rw [hs, hchunks]
    exact hdrain _
      (fun r hr rest => D.muduo_wellFormed rest ((hcalls r hr).wellFormed (hframe r hr)))

def sampleServices : Bytes → Option ServiceInfo := fun service =>
  if service = [85] then some ⟨fun method => if method = [76] then some ⟨fun _ => true⟩ else none⟩
    else none

def sampleCalls : List Request := [⟨[85], [76], 1, [10, 1, 97]⟩, ⟨[85], [76], 2, []⟩]

theorem pipelined_calls_dispatched_sample :
    [[10, 0, 0], [0, 10, 1, 85, 18, 1, 76, 24, 3, 32, 1, 10, 1, 97, 8],
      [0, 0, 0, 10, 1, 85, 18, 1, 76, 32, 2]].foldl
      (Decoding.mk protoCodec.parseFromString sampleServices).recvChunk Decoding.accepted =
        (sampleCalls, .pending []) := by
  obtain ⟨frames, hframes, h⟩ :=
    pipelined_calls_dispatched protoCodec sampleServices sampleCalls (by decide)
  refine (h _ ?_).1
  have hs : sampleCalls.mapM (sendRpcStr protoCodec) = some
      [[10, 0, 0, 0, 10, 1, 85, 18, 1, 76, 24, 3, 32, 1, 10, 1, 97],
        [8, 0, 0, 0, 10, 1, 85, 18, 1, 76, 32, 2]] := by
    decide
  rw [Option.some.inj (hframes.symm.trans hs)]
  rfl

end KimRpc.Server
