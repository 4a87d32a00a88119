import KimRpc.Library.ProtoWire

/-! The header message of a request, and the proto3 codec that the generated
class implements. -/

namespace KimRpc.Wire

open Library

abbrev Bytes := List UInt8

structure RpcHeader where
  serviceName : Bytes := []
  methodName : Bytes := []
  argsSize : UInt32 := 0
  requestId : UInt64 := 0
  deriving DecidableEq, Repr

structure HeaderCodec where
  serializeToString : RpcHeader → Option Bytes
  parseFromString : Bytes → Option RpcHeader
  parse_serialize : ∀ {h bs}, serializeToString h = some bs → parseFromString bs = some h

namespace RpcHeader

open ProtoWire

/-- proto3 writes no field that holds its default value. -/
def toFields (h : RpcHeader) : List Field :=
  (if h.serviceName = [] then [] else [⟨1, .bytes h.serviceName⟩]) ++
  (if h.methodName = [] then [] else [⟨2, .bytes h.methodName⟩]) ++
  (if h.argsSize = 0 then [] else [⟨3, .varint h.argsSize.toNat⟩]) ++
  (if h.requestId = 0 then [] else [⟨4, .varint h.requestId.toNat⟩])

/-- A field of another number or wire type is unknown and skipped. -/
def setField (h : RpcHeader) (f : Field) : RpcHeader :=
  match f.number, f.value with
  | 1, .bytes bs => { h with serviceName := bs }
  | 2, .bytes bs => { h with methodName := bs }
  | 3, .varint v => { h with argsSize := UInt32.ofNat v }
  | 4, .varint v => { h with requestId := UInt64.ofNat v }
  | _, _ => h

def ofFields (fs : List Field) : RpcHeader := fs.foldl setField {}

lemma ofFields_toFields (h : RpcHeader) : ofFields h.toFields = h := by
  obtain ⟨service, method, size, id⟩ := h
  have hs : UInt32.ofNat size.toNat = size := by simp
  have hi : UInt64.ofNat id.toNat = id := by simp
  by_cases h1 : service = [] <;> by_cases h2 : method = [] <;> by_cases h3 : size = 0 <;>
    by_cases h4 : id = 0 <;> simp [toFields, ofFields, setField, h1, h2, h3, h4]

def Fits (h : RpcHeader) : Prop := h.serviceName.length < 2 ^ 31 ∧ h.methodName.length < 2 ^ 31

instance (h : RpcHeader) : Decidable h.Fits := inferInstanceAs (Decidable (_ ∧ _))

lemma toFields_fit (h : RpcHeader) (hf : h.Fits) : ∀ f ∈ h.toFields, f.Fits := by
  obtain ⟨hs, hm⟩ := hf
  have ha : h.argsSize.toNat < 2 ^ 32 := h.argsSize.toNat_lt
  have hi : h.requestId.toNat < 2 ^ 64 := h.requestId.toNat_lt
  intro f hmem
  simp only [toFields, List.mem_append] at hmem
  rcases hmem with ((h1 | h1) | h1) | h1 <;> split_ifs at h1 <;>
    simp only [List.mem_singleton, List.not_mem_nil] at h1 <;> subst h1 <;>
    simp only [Field.Fits, Value.Fits] <;> omega

def parse (bs : Bytes) : Option RpcHeader := (ProtoWire.fields bs).map ofFields

def serialize (h : RpcHeader) : Option Bytes :=
  if h.Fits then some (h.toFields.flatMap writeField) else none

lemma parse_serialize {h : RpcHeader} {bs : Bytes} (hs : h.serialize = some bs) :
    parse bs = some h := by
  rw [serialize] at hs
  split_ifs at hs with hf
  cases Option.some.inj hs
  rw [parse, fields_flatMap _ (toFields_fit h hf), Option.map_some, ofFields_toFields]

end RpcHeader

def protoCodec : HeaderCodec where
  serializeToString := RpcHeader.serialize
  parseFromString := RpcHeader.parse
  parse_serialize := RpcHeader.parse_serialize

end KimRpc.Wire
