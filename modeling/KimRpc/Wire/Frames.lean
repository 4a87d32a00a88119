import KimRpc.Library.LittleEndian
import KimRpc.Wire.RpcHeader

/-! Request and response frames as the two clients and the two servers build
them. Lengths are written as 32-bit integers, so longer strings wrap. -/

namespace KimRpc.Wire

open Library.LittleEndian

structure Request where
  serviceName : Bytes
  methodName : Bytes
  requestId : UInt64
  args : Bytes
  deriving DecidableEq, Repr

def Request.header (r : Request) : RpcHeader :=
  ⟨r.serviceName, r.methodName, UInt32.ofNat r.args.length, r.requestId⟩

def sendRpcStr (codec : HeaderCodec) (r : Request) : Option Bytes :=
  (codec.serializeToString r.header).map
    (fun rpcHeaderStr => encode 4 rpcHeaderStr.length ++ rpcHeaderStr ++ r.args)

def responseFrame (requestId : UInt64) (body : Bytes) : Bytes :=
  encode 4 (8 + body.length) ++ encode 8 requestId.toNat ++ body

/-- Empty when the response does not serialise. -/
def onPoolDone (requestId : UInt64) (responseStr : Option Bytes) : Bytes :=
  (responseStr.map (responseFrame requestId)).getD []

def sendRpcResponse (requestId : UInt64) (responseStr : Option Bytes) : Option Bytes :=
  responseStr.map (responseFrame requestId)

lemma responseFrame_length (requestId : UInt64) (body : Bytes) :
    (responseFrame requestId body).length = 12 + body.length := by
  simp [responseFrame]
  omega

lemma onPoolDone_some (requestId : UInt64) (body : Bytes) :
    onPoolDone requestId (some body) = responseFrame requestId body := rfl

end KimRpc.Wire
