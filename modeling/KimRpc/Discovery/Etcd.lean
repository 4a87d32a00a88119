import KimRpc.Discovery.WatchStream

/-! Writing and reading the store: the bodies of the requests, what the gateway of the
store takes them for, and what the client makes of the answer. -/

namespace KimRpc.Discovery

open Library.Decimal Wire

section text

inductive Literal where
  | string (s : Bytes)
  | number (n : ℕ)
  deriving DecidableEq

def Literal.json : Literal → Json
  | string s => .string s
  | number n => .number n

def quoted (s : Bytes) : Bytes := 34 :: (s ++ [34])

def Literal.text : Literal → Bytes
  | string s => quoted s
  | number n => decimal n

def objectText (members : List (String × Literal)) : Bytes :=
  123 :: (List.intercalate [44]
    (members.map (fun m => quoted (Discovery.text m.1) ++ 58 :: m.2.text)) ++ [125])

def Plain (s : Bytes) : Prop := ∀ c ∈ s, 32 ≤ c.toNat ∧ c.toNat < 127 ∧ c ≠ 34 ∧ c ≠ 92

instance : DecidablePred Plain := List.decidableBAll _

def Literal.IsPlain : Literal → Prop
  | string s => Plain s
  | number _ => True

/-- The parser reads the text of an object of plain members. -/
def ReadsMembers (parse : Bytes → Option Json) (members : List (String × Literal)) : Prop :=
  (∀ m ∈ members, Plain (text m.1) ∧ m.2.IsPlain) →
    parse (objectText members) = some (.object (members.map (fun m => (m.1, m.2.json))))

end text

section requests

def putBody (key value : Bytes) (leaseId : ℤ) : Bytes :=
  text "\x7b\"key\":\"" ++ b64Encode key ++ text "\",\"value\":\"" ++ b64Encode value ++
    text "\"" ++
    (if leaseId > 0 then text ",\"lease\":" ++ decimal leaseId.toNat else []) ++ text "\x7d"

def rangeBody (pre : Bytes) : Bytes :=
  text "\x7b\"key\":\"" ++ b64Encode pre ++ text "\",\"range_end\":\"" ++
    b64Encode (prefixEnd pre) ++ text "\"\x7d"

structure PutRequest where
  key : Bytes
  value : Bytes
  leaseId : ℤ
  granted : 0 < leaseId
  deriving DecidableEq

def PutRequest.body (r : PutRequest) : Bytes := putBody r.key r.value r.leaseId

def PutRequest.members (r : PutRequest) : List (String × Literal) :=
  [("key", .string (b64Encode r.key)), ("value", .string (b64Encode r.value)),
    ("lease", .number r.leaseId.toNat)]

def rangeMembers (pre : Bytes) : List (String × Literal) :=
  [("key", .string (b64Encode pre)), ("range_end", .string (b64Encode (prefixEnd pre)))]

def readKeyValue (kv : Json) : Except TypeError KeyValue := do
  let key ← kv.value "key" []
  let value ← kv.value "value" []
  pure ⟨b64Decode key, b64Decode value⟩

def readRange (j : Json) : Option (List KeyValue × ℤ) :=
  if (j.find "error").isSome then none
  else
    let revision := match j.find "header" with
      | none => 0
      | some header => jint header "revision" 0
    let kvs := match j.find "kvs" with
      | some (.array items) => items.mapM readKeyValue
      | _ => .ok []
    match kvs with
    | .error _ => none
    | .ok kvs => some (kvs, revision)

/-- `RangePrefix` on the answer to its request; none is the result false. -/
def rangePrefix (parse : Bytes → Option Json) (resp : Bytes) : Option (List KeyValue × ℤ) :=
  if resp = [] then none else (parse resp).bind readRange

end requests

section store

def IsBase64 (bs : Bytes) (field : String) (j : Json) : Prop :=
  match j.find field with
  | none => bs = []
  | some v => v.IsString (Library.Base64Text.encode bs)

def IsKeyValue (kv : KeyValue) (j : Json) : Prop :=
  j.IsObject ∧ IsBase64 kv.key "key" j ∧ IsBase64 kv.value "value" j

def AreKeyValues (kvs : List KeyValue) (j : Json) : Prop :=
  match j.find "kvs" with
  | none => kvs = []
  | some (.array items) => List.Forall₂ IsKeyValue kvs items
  | some _ => False

variable (gateway parse : Bytes → Option Json)

def put (kv : KeyValue) (stored : List KeyValue) : List KeyValue :=
  stored.filter (fun e => e.key ≠ kv.key) ++ [kv]

inductive Holds : List Bytes → List KeyValue → Prop
  | empty : Holds [] []
  | put {bodies : List Bytes} {stored : List KeyValue} {body : Bytes} {kv : KeyValue} {j : Json} :
      Holds bodies stored → gateway body = some j → IsKeyValue kv j →
      Holds (bodies ++ [body]) (put kv stored)

/-- A request for a range and its answer, which has the pairs in any order. -/
def Answered (stored : List KeyValue) (body resp : Bytes) : Prop :=
  ∃ j ∈ gateway body, ∃ key rangeEnd, IsBase64 key "key" j ∧ IsBase64 rangeEnd "range_end" j ∧
    resp ≠ [] ∧ ∃ answer ∈ parse resp, answer.find "error" = none ∧ ∃ kvs, AreKeyValues kvs answer ∧
      kvs.Perm (stored.filter (fun kv => InRange key rangeEnd kv.key))

variable {gateway parse} {bs s : Bytes} {field : String} {j : Json} {kvs : List KeyValue}

lemma b64Encode_injective : Function.Injective b64Encode := fun s t h => by
  rw [← decode_encode s, h, decode_encode]

lemma isBase64_iff : IsBase64 bs field j ↔ IsText bs field j := by
  cases hfind : j.find field with
  | none => simp only [IsBase64, IsText, hfind]
  | some v => simp only [IsBase64, IsText, hfind, b64Encode_standard]

lemma IsBase64.eq (h : IsBase64 bs field j) (hfind : j.find field = some (.string (b64Encode s))) :
    bs = s := by
  rw [isBase64_iff, IsText, hfind] at h
  exact (b64Encode_injective h).symm

lemma plain_b64Encode (s : Bytes) : Plain (b64Encode s) := by
  have hchar : ∀ n, Plain [b64Char n] := by
    have htab : ∀ m < 64, Plain [kB64Tab.getD m 0] := by decide +kernel
    exact fun n => htab _ (Nat.mod_lt _ (by omega))
  have hpad : Plain [pad] := by decide
  have hcons : ∀ c cs, Plain [c] → Plain cs → Plain (c :: cs) := by
    intro c cs hc hcs d hd
    rcases List.mem_cons.mp hd with rfl | hd
    · exact hc d (List.mem_singleton_self d)
    · exact hcs d hd
  induction s using b64Encode.induct with
  | case1 x y z rest ih =>
    rw [b64Encode]
    exact hcons _ _ (hchar _) (hcons _ _ (hchar _) (hcons _ _ (hchar _) (hcons _ _ (hchar _) ih)))
  | case2 x y =>
    rw [b64Encode]
    exact hcons _ _ (hchar _) (hcons _ _ (hchar _) (hcons _ _ (hchar _) hpad))
  | case3 x =>
    rw [b64Encode]
    exact hcons _ _ (hchar _) (hcons _ _ (hchar _) (hcons _ _ hpad hpad))
  | case4 =>
    intro c hc
    cases hc

lemma gateway_put {r : PutRequest} (h : ReadsMembers gateway r.members) :
    gateway r.body = some (.object (r.members.map (fun m => (m.1, m.2.json)))) := by
  have hbody : r.body = objectText r.members := by
    simp [PutRequest.body, putBody, r.granted, PutRequest.members, objectText, Literal.text, quoted,
      List.intercalate,
      text]
  rw [hbody]
  refine h (fun m hm => ?_)
  simp only [PutRequest.members, List.mem_cons, List.not_mem_nil, or_false] at hm
  rcases hm with rfl | rfl | rfl
  · exact ⟨show Plain (text "key") by decide, plain_b64Encode r.key⟩
  · exact ⟨show Plain (text "value") by decide, plain_b64Encode r.value⟩
  · exact ⟨show Plain (text "lease") by decide, trivial⟩

lemma gateway_range {pre : Bytes} (h : ReadsMembers gateway (rangeMembers pre)) :
    gateway (rangeBody pre) =
      some (.object ((rangeMembers pre).map (fun m => (m.1, m.2.json)))) := by
  have hbody : rangeBody pre = objectText (rangeMembers pre) := by
    simp [rangeBody, rangeMembers, objectText, Literal.text, quoted, List.intercalate, text]
  rw [hbody]
  refine h (fun m hm => ?_)
  simp only [rangeMembers, List.mem_cons, List.not_mem_nil, or_false] at hm
  rcases hm with rfl | rfl
  · exact ⟨show Plain (text "key") by decide, plain_b64Encode pre⟩
  · exact ⟨show Plain (text "range_end") by decide, plain_b64Encode _⟩

lemma IsKeyValue.read {kv : KeyValue} (h : IsKeyValue kv j) : readKeyValue j = .ok kv := by
  obtain ⟨hj, hkey, hvalue⟩ := h
  obtain ⟨key, hkey, hkeyText⟩ := (isBase64_iff.mp hkey).value hj
  obtain ⟨value, hvalue, hvalueText⟩ := (isBase64_iff.mp hvalue).value hj
  rw [readKeyValue, hkey, hvalue]
  change Except.ok (⟨b64Decode key, b64Decode value⟩ : KeyValue) = _
  rw [hkeyText, hvalueText]

lemma read_keyValues {items : List Json} (h : List.Forall₂ IsKeyValue kvs items) :
    items.mapM readKeyValue = .ok kvs := by
  induction h with
  | nil => rfl
  | cons hkv _ ih =>
    rw [List.mapM_cons, hkv.read, ih]
    rfl

lemma readRange_eq (herror : j.find "error" = none) (hkvs : AreKeyValues kvs j) :
    ∃ revision, readRange j = some (kvs, revision) := by
  rw [readRange, herror]
  unfold AreKeyValues at hkvs
  split at hkvs
  · next hnone =>
    rw [hnone, hkvs]
    exact ⟨_, rfl⟩
  · next items harray =>
    rw [harray]
    simp only [read_keyValues hkvs]
    exact ⟨_, rfl⟩
  · exact hkvs.elim

lemma Answered.range {p : KeyPrefix} (hgateway : ReadsMembers gateway (rangeMembers p.bytes))
    {stored : List KeyValue}
    {resp : Bytes} (h : Answered gateway parse stored (rangeBody p.bytes) resp) : ∃ kvs revision,
      rangePrefix parse resp = some (kvs, revision) ∧
      kvs.Perm (stored.filter (fun kv => p.bytes <+: kv.key)) := by
  obtain ⟨j, hj, key, rangeEnd, hkey, hend, hresp, answer, hanswer, herror, kvs, hkvs, hperm⟩ := h
  rw [Option.mem_def, gateway_range hgateway, Option.some.injEq] at hj
  subst hj
  obtain rfl : key = p.bytes := hkey.eq rfl
  obtain rfl : rangeEnd = prefixEnd p.bytes := hend.eq rfl
  obtain ⟨revision, hread⟩ := readRange_eq herror hkvs
  refine ⟨kvs, revision, ?_, ?_⟩
  · rw [rangePrefix, if_neg hresp, Option.mem_def.mp hanswer]
    exact hread
  · refine hperm.trans (List.Perm.of_eq (List.filter_congr (fun kv _ => ?_)))
    exact decide_eq_decide.mpr (p.covers_iff kv.key)

lemma keys_put (kv : KeyValue) (stored : List KeyValue) : (put kv stored).map KeyValue.key =
    (stored.map KeyValue.key).filter (· ≠ kv.key) ++ [kv.key] := by
  rw [put, List.map_append, List.map_singleton, List.filter_map]
  rfl

lemma Holds.keys {puts : List PutRequest} {stored : List KeyValue}
    (hgateway : ∀ r ∈ puts, ReadsMembers gateway r.members)
    (h : Holds gateway (puts.map PutRequest.body) stored) : (stored.map KeyValue.key).Nodup ∧
      ∀ key, key ∈ stored.map KeyValue.key ↔ key ∈ puts.map PutRequest.key := by
  generalize hbodies : puts.map PutRequest.body = bodies at h
  induction h generalizing puts with
  | empty =>
    rw [List.map_eq_nil_iff] at hbodies
    subst hbodies
    exact ⟨List.nodup_nil, fun _ => Iff.rfl⟩
  | @put bodies stored body kv j _ hj hkv ih =>
    obtain ⟨puts, last, rfl, hinit, hlast⟩ := List.map_eq_append_iff.mp hbodies
    obtain ⟨r, rfl, hbody⟩ := List.map_eq_singleton_iff.mp hlast
    rw [List.forall_mem_append, List.forall_mem_singleton] at hgateway
    obtain ⟨hnodup, hkeys⟩ := ih hgateway.1 hinit
    rw [← hbody, gateway_put hgateway.2, Option.some.injEq] at hj
    subst hj
    have hkey : kv.key = r.key := hkv.2.1.eq rfl
    rw [keys_put]
    have hfresh : kv.key ∉ (stored.map KeyValue.key).filter (· ≠ kv.key) := by simp
    refine ⟨?_, fun key => ?_⟩
    · rw [← List.concat_eq_append]
      exact (hnodup.filter _).concat hfresh
    rw [List.map_append, List.mem_append, List.mem_append, List.mem_filter, hkeys, hkey]
    by_cases he : key = r.key
    · simp [he]
    · simp [he]

end store

end KimRpc.Discovery
