import KimRpc.Library.HeaderFraming
import KimRpc.Wire.Frames

/-! The request decoders of the two servers, as drain loops over the input
buffer of one connection. -/

namespace KimRpc.Server

open Library.StreamDecoding Library.HeaderFraming Library.LittleEndian Wire

def kMaxHeaderSize : ℕ := 64 * 1024
def kMaxBodySize : ℕ := 64 * 1024 * 1024

structure MethodDescriptor where
  requestParses : Bytes → Bool

structure ServiceInfo where
  methodMap : Bytes → Option MethodDescriptor

structure Decoding where
  parseHeader : Bytes → Option RpcHeader
  serviceMap : Bytes → Option ServiceInfo

namespace Decoding

variable (D : Decoding)

def tryHandleRequest (input : Bytes) : Verdict UInt8 Request :=
  if input.length < 4 then .wait
  else
    let headerSize := value (input.take 4)
    if headerSize > kMaxHeaderSize then .stop
    else if input.length < 4 + headerSize then .wait
    else match D.parseHeader ((input.drop 4).take headerSize) with
      | none => .stop
      | some rpcHeader =>
        let argsSize := rpcHeader.argsSize.toNat
        if argsSize > kMaxBodySize then .stop
        else
          let requestSize := 4 + headerSize + argsSize
          if input.length < requestSize then .wait
          else
            let argsStr := (input.drop (4 + headerSize)).take argsSize
            let rest := input.drop requestSize
            match D.serviceMap rpcHeader.serviceName with
            | none => .stop
            | some sinfo =>
              match sinfo.methodMap rpcHeader.methodName with
              | none => .stop
              | some method =>
                if method.requestParses argsStr then
                  .emit [⟨rpcHeader.serviceName, rpcHeader.methodName, rpcHeader.requestId,
                    argsStr⟩] rest
                else .stop

/-- A frame for an unknown service or method, or with arguments that do not
parse, is skipped; a header that does not parse shuts the connection down. -/
def onMessage (buffer : Bytes) : Verdict UInt8 Request :=
  if buffer.length < 4 then .wait
  else
    let headerSize := value (buffer.take 4)
    if buffer.length < 4 + headerSize then .wait
    else match D.parseHeader ((buffer.drop 4).take headerSize) with
      | none => .stop
      | some rpcHeader =>
        let argsSize := rpcHeader.argsSize.toNat
        let frameSize := 4 + headerSize + argsSize
        if buffer.length < frameSize then .wait
        else
          let argsStr := (buffer.drop (4 + headerSize)).take argsSize
          let rest := buffer.drop frameSize
          match D.serviceMap rpcHeader.serviceName with
          | none => .emit [] rest
          | some sinfo =>
            match sinfo.methodMap rpcHeader.methodName with
            | none => .emit [] rest
            | some method =>
              if method.requestParses argsStr then
                .emit [⟨rpcHeader.serviceName, rpcHeader.methodName, rpcHeader.requestId, argsStr⟩]
                  rest
              else .emit [] rest

def request (h : RpcHeader) (args : Bytes) : Request :=
  ⟨h.serviceName, h.methodName, h.requestId, args⟩

def Registered (h : RpcHeader) (args : Bytes) : Prop :=
  ∃ sinfo method, D.serviceMap h.serviceName = some sinfo ∧
  sinfo.methodMap h.methodName = some method ∧
    method.requestParses args = true

def registered (h : RpcHeader) (args : Bytes) : Bool :=
  ((D.serviceMap h.serviceName).bind (fun sinfo => sinfo.methodMap h.methodName)).any
    (fun method => method.requestParses args)

lemma registered_iff (h : RpcHeader) (args : Bytes) : D.registered h args = true ↔
    D.Registered h args := by
  rw [registered, Registered]
  cases hs : D.serviceMap h.serviceName with
  | none => simp
  | some sinfo => cases hm : sinfo.methodMap h.methodName <;> simp [hm]

def uringFraming : Framing RpcHeader Request where
  headerOk n := decide (n ≤ kMaxHeaderSize)
  parse := D.parseHeader
  bodySize h := h.argsSize.toNat
  bodyOk n := decide (n ≤ kMaxBodySize)
  deliver h args := if D.registered h args then some [request h args] else none

def muduoFraming : Framing RpcHeader Request where
  headerOk _ := true
  parse := D.parseHeader
  bodySize h := h.argsSize.toNat
  bodyOk _ := true
  deliver h args := some (if D.registered h args then [request h args] else [])

lemma lookup_eq {γ : Type} (h : RpcHeader) (args : Bytes) (yes no : γ) :
    (match D.serviceMap h.serviceName with
      | none => no
      | some sinfo =>
        match sinfo.methodMap h.methodName with
        | none => no
        | some method => if method.requestParses args then yes else no) =
      if D.registered h args then yes else no := by
  rw [registered]
  cases D.serviceMap h.serviceName with
  | none => rfl
  | some sinfo =>
    cases hm : sinfo.methodMap h.methodName with
    | none => simp [hm]
    | some method => simp [hm]

lemma tryHandleRequest_eq (input : Bytes) :
    D.tryHandleRequest input = D.uringFraming.next input := by
  simp only [tryHandleRequest, Framing.next, uringFraming, Bool.not_eq_true',
    decide_eq_false_iff_not, not_le,
    gt_iff_lt]
  split_ifs
  · rfl
  · rfl
  · rfl
  · cases hp : D.parseHeader ((input.drop 4).take (value (input.take 4))) with
    | none => rfl
    | some h =>
      simp only [Framing.body, Bool.not_eq_true', decide_eq_false_iff_not, not_le, lookup_eq]
      split_ifs <;> rfl

lemma onMessage_eq (buffer : Bytes) : D.onMessage buffer = D.muduoFraming.next buffer := by
  simp only [onMessage, Framing.next, muduoFraming, Bool.not_true, Bool.false_eq_true, if_false]
  split_ifs
  · rfl
  · rfl
  · cases hp : D.parseHeader ((buffer.drop 4).take (value (buffer.take 4))) with
    | none => rfl
    | some h =>
      simp only [Framing.body, Bool.not_true, Bool.false_eq_true, if_false, lookup_eq]
      split_ifs <;> rfl

def uringDecoder : Decoder UInt8 Request where
  next := D.tryHandleRequest
  next_nil := rfl
  emit_shorter := by
    simp only [tryHandleRequest_eq]
    exact D.uringFraming.decoder.emit_shorter
  emit_append := by
    simp only [tryHandleRequest_eq]
    exact D.uringFraming.decoder.emit_append
  stop_append := by
    simp only [tryHandleRequest_eq]
    exact D.uringFraming.decoder.stop_append

def muduoDecoder : Decoder UInt8 Request where
  next := D.onMessage
  next_nil := rfl
  emit_shorter := by
    simp only [onMessage_eq]
    exact D.muduoFraming.decoder.emit_shorter
  emit_append := by
    simp only [onMessage_eq]
    exact D.muduoFraming.decoder.emit_append
  stop_append := by
    simp only [onMessage_eq]
    exact D.muduoFraming.decoder.stop_append

lemma uring_next (input : Bytes) : D.uringDecoder.next input = D.uringFraming.next input :=
  D.tryHandleRequest_eq input

lemma muduo_next (buffer : Bytes) : D.muduoDecoder.next buffer = D.muduoFraming.next buffer :=
  D.onMessage_eq buffer

abbrev Connection := List Request × Status UInt8

def accepted : Connection := ([], .pending [])

/-- A received chunk: appended to the input of an open connection, then the
loop of `handleRecv` calls `tryHandleRequest` until it waits or closes. -/
def recvChunk (conn : Connection) (chunk : Bytes) : Connection := D.uringDecoder.feed conn chunk

def messageChunk (conn : Connection) (chunk : Bytes) : Connection := D.muduoDecoder.feed conn chunk

end Decoding

end KimRpc.Server
