import KimRpc.Client.Addresses
import KimRpc.Discovery.Etcd
import KimRpc.Discovery.InstanceTable

/-! From the registration of a service to the address that a call connects to: the keys
that a provider puts, the instances that a look-up finds, and the split of their addresses. -/

namespace KimRpc.Discovery

open Client Library.Decimal Wire

structure Provider where
  ip : Bytes
  port : UInt16
  serviceMap : List (Bytes × List Bytes)
  leaseId : ℤ
  accepted : (inetPton ip).isSome = true
  granted : 0 < leaseId
  names : ∀ sp ∈ serviceMap, 47 ∉ sp.1 ∧ ∀ mp ∈ sp.2, 47 ∉ mp

namespace Provider

/-- What `snprintf` writes to a buffer of 64 bytes. -/
def addr (P : Provider) : Bytes := (P.ip.takeWhile (· ≠ 0) ++ 58 :: decimal P.port.toNat).take 63

def registerServiceToEtcd (P : Provider) : List PutRequest :=
  P.serviceMap.flatMap (fun sp => sp.2.map (fun mp =>
    ⟨47 :: (sp.1 ++ 47 :: (mp ++ 47 :: P.addr)), P.addr, P.leaseId, P.granted⟩))

def Registers (P : Provider) (service method : Bytes) :
    Prop := ∃ sp ∈ P.serviceMap, sp.1 = service ∧ method ∈ sp.2

end Provider

/-- The path that a channel looks up; the range of its instances is within the int of `prefixEnd`.
-/
structure MethodPath where
  service : Bytes
  method : Bytes
  short : service.length + method.length + 3 < 2 ^ 31

def MethodPath.bytes (path : MethodPath) : Bytes := 47 :: (path.service ++ 47 :: path.method)

def MethodPath.pre (path : MethodPath) : KeyPrefix where
  bytes := path.bytes ++ [47]
  short := by
    have hshort := path.short
    simp only [MethodPath.bytes, List.length_append, List.length_cons, List.length_nil]
    omega

/-- The first look-up of `GetRpcAddress`, on the answer to its range request: the instances and
the revision to watch from. -/
def seedEntry (parse : Bytes → Option Json) (methodPath resp : Bytes) : Option (List Bytes × ℤ) :=
  (rangePrefix parse resp).map (fun r => (Instances.seed (methodPath ++ [47]) r.1, r.2))

section keys

variable {P : Provider} {path : MethodPath}

lemma decimal_length {n : ℕ} (h : n < 2 ^ 16) : (decimal n).length ≤ 5 := by
  rw [decimal]
  split_ifs with hn
  · simp
  · rw [List.length_map, List.length_reverse]
    have hdigits : (Nat.digits 10 n).length ≤ 5 :=
      (Nat.digits_length_le_iff (by omega) n).mpr (by omega)
    exact hdigits

lemma Provider.addr_eq (P : Provider) : P.addr = P.ip ++ 58 :: decimal P.port.toNat := by
  obtain ⟨hchars, hlen⟩ := inetPton_some P.accepted
  have hdecimal := decimal_length P.port.toNat_lt
  have hwhole : P.ip.takeWhile (· ≠ 0) = P.ip := by
    apply List.takeWhile_eq_self_iff.mpr
    intro c hc
    apply decide_eq_true
    rintro rfl
    rcases hchars 0 hc with hdigit | hdot
    · exact absurd hdigit (by decide)
    · cases hdot
  rw [Provider.addr, hwhole, List.take_of_length_le]
  simp only [List.length_append, List.length_cons]
  omega

lemma Provider.not_mem_ip {c : UInt8} (hdigit : ¬ IsDigit c) (hdot : c ≠ 46) : c ∉ P.ip := by
  intro hc
  rcases (inetPton_some P.accepted).1 c hc with h | h
  · exact hdigit h
  · exact hdot h

lemma Provider.slash_not_mem_addr : 47 ∉ P.addr := by
  rw [P.addr_eq, List.mem_append, List.mem_cons]
  rintro (hip | hcolon | hport)
  · exact P.not_mem_ip (by decide) (by decide) hip
  · cases hcolon
  · exact absurd (decimal_digits _ _ hport) (by decide)

lemma Provider.ipPort_addr (P : Provider) : ipPort P.addr = some (P.ip, P.port.toNat) := by
  obtain ⟨-, hlen⟩ := inetPton_some P.accepted
  have hport : P.port.toNat < 2 ^ 16 := P.port.toNat_lt
  have hdecimal := decimal_length hport
  have hshort : P.addr.length < 2 ^ 31 := by
    rw [P.addr_eq, List.length_append, List.length_cons]
    omega
  rw [ipPort_split P.addr_eq (P.not_mem_ip (by decide) (by decide)) hshort,
    stoi_digits (decimal_ne_nil _) (decimal_digits _) (by rw [readDigits_decimal]; omega),
    readDigits_decimal,
    Option.map_some]
  have hmod : ((P.port.toNat : ℤ) % 2 ^ 16).toNat = P.port.toNat := by omega
  rw [hmod]

lemma key_under {service method addr a : Bytes} (hs : 47 ∉ service) (hm : 47 ∉ method)
    (ha : 47 ∉ addr)
    (he : path.pre.bytes ++ a = 47 :: (service ++ 47 :: (method ++ 47 :: addr))) :
    path.service = service ∧ path.method = method ∧ a = addr := by
  have hcount := congrArg (List.count 47) he
  simp only [MethodPath.pre, MethodPath.bytes, List.count_append, List.count_cons_self,
    List.count_nil,
    List.count_eq_zero.mpr hs, List.count_eq_zero.mpr hm, List.count_eq_zero.mpr ha] at hcount
  have hs' : 47 ∉ path.service := List.count_eq_zero.mp (by omega)
  have hm' : 47 ∉ path.method := List.count_eq_zero.mp (by omega)
  simp only [MethodPath.pre, MethodPath.bytes, List.append_assoc, List.cons_append, List.cons.injEq,
    true_and,
    List.nil_append] at he
  obtain ⟨hservice, hrest⟩ := cut_unique hs' hs he
  obtain ⟨hmethod, haddr⟩ := cut_unique hm' hm hrest
  exact ⟨hservice, hmethod, haddr⟩

end keys

section found

variable {providers : List Provider} {requests : List PutRequest} {path : MethodPath} {a : Bytes}

lemma registered_iff
    (hrequests : ∀ r, r ∈ requests ↔ ∃ P ∈ providers, r ∈ P.registerServiceToEtcd) :
    a ≠ [] ∧ path.pre.bytes ++ a ∈ requests.map PutRequest.key ↔
      ∃ P ∈ providers, P.Registers path.service path.method ∧ P.addr = a := by
  have hput (P : Provider) (r : PutRequest) : r ∈ P.registerServiceToEtcd ↔
      ∃ sp ∈ P.serviceMap, ∃ mp ∈ sp.2,
      ⟨47 :: (sp.1 ++ 47 :: (mp ++ 47 :: P.addr)), P.addr, P.leaseId, P.granted⟩ = r := by
    simp [Provider.registerServiceToEtcd]
  constructor
  · rintro ⟨-, hmem⟩
    obtain ⟨r, hr, hkey⟩ := List.mem_map.mp hmem
    obtain ⟨P, hP, hr⟩ := (hrequests r).mp hr
    obtain ⟨sp, hsp, mp, hmp, rfl⟩ := (hput P r).mp hr
    obtain ⟨hservice, hmethods⟩ := P.names sp hsp
    obtain ⟨hs, hm, ha⟩ := key_under hservice (hmethods mp hmp) P.slash_not_mem_addr hkey.symm
    exact ⟨P, hP, ⟨sp, hsp, hs.symm, hm ▸ hmp⟩, ha.symm⟩
  · rintro ⟨P, hP, ⟨sp, hsp, hs, hmp⟩, rfl⟩
    refine ⟨?_, List.mem_map.mpr
      ⟨_, (hrequests _).mpr ⟨P, hP, (hput P _).mpr ⟨sp, hsp, path.method, hmp, rfl⟩⟩, ?_⟩⟩
    · rw [P.addr_eq]
      exact List.append_ne_nil_of_right_ne_nil _ (List.cons_ne_nil _ _)
    · simp [hs, MethodPath.pre, MethodPath.bytes]

/-- A look-up finds the addresses registered for its method, and each is split into its ip and port.
-/
theorem registered_found (gateway parse : Bytes → Option Json) (providers : List Provider)
    (requests : List PutRequest)
    (hrequests : ∀ r, r ∈ requests ↔ ∃ P ∈ providers, r ∈ P.registerServiceToEtcd)
    (hputs : ∀ r ∈ requests, ReadsMembers gateway r.members) {stored : List KeyValue}
    (hstored : Holds gateway (requests.map PutRequest.body) stored) (path : MethodPath)
    (hrange : ReadsMembers gateway (rangeMembers path.pre.bytes)) {resp : Bytes}
    (hanswer : Answered gateway parse stored (rangeBody path.pre.bytes) resp) :
    ∃ instances revision, seedEntry parse path.bytes resp = some (instances, revision) ∧
    instances.Nodup ∧
      (∀ a, a ∈ instances ↔ ∃ P ∈ providers, P.Registers path.service path.method ∧ P.addr = a) ∧
      ∀ P ∈ providers, ipPort P.addr = some (P.ip, P.port.toNat) := by
  obtain ⟨kvs, revision, hread, hperm⟩ := hanswer.range hrange
  obtain ⟨hnodup, hkeys⟩ := hstored.keys hputs
  have hunder : ∀ kv ∈ kvs, path.pre.bytes <+: kv.key := fun kv hkv => by
    have hmem := hperm.mem_iff.mp hkv
    exact of_decide_eq_true (List.mem_filter.mp hmem).2
  have hdistinct : (kvs.map KeyValue.key).Nodup := by
    rw [(hperm.map KeyValue.key).nodup_iff]
    exact hnodup.sublist (List.filter_sublist.map _)
  refine ⟨Instances.seed path.pre.bytes kvs, revision, ?_, Instances.nodup_seed_under hunder
    hdistinct, fun a => ?_,
    fun P _ => P.ipPort_addr⟩
  · rw [seedEntry, hread]
    rfl
  · have hstoredKeys : path.pre.bytes ++ a ∈ kvs.map KeyValue.key ↔
        path.pre.bytes ++ a ∈ requests.map PutRequest.key := by
      rw [(hperm.map KeyValue.key).mem_iff, ← hkeys, List.mem_map, List.mem_map]
      constructor
      · rintro ⟨kv, hkv, hkey⟩
        exact ⟨kv, (List.mem_filter.mp hkv).1, hkey⟩
      · rintro ⟨kv, hkv, hkey⟩
        exact ⟨kv, List.mem_filter.mpr ⟨hkv, decide_eq_true ⟨a, hkey.symm⟩⟩, hkey⟩
    rw [Instances.mem_seed_under hunder, hstoredKeys]
    exact registered_iff hrequests

def sampleProvider : Provider where
  ip := text "10.0.0.1"
  port := 8000
  serviceMap := [(text "U", [text "L", text "Lo"])]
  leaseId := 7
  accepted := by decide
  granted := by decide
  names := by decide

def samplePath : MethodPath := ⟨text "U", text "L", by decide⟩

def sampleGateway (body : Bytes) : Option Json :=
  ((rangeMembers samplePath.pre.bytes :: sampleProvider.registerServiceToEtcd.map
    PutRequest.members).find?
    (fun ms => objectText ms = body)).map (fun ms => .object (ms.map (fun m => (m.1, m.2.json))))

def sampleStored : List KeyValue :=
  [⟨text "/U/L/10.0.0.1:8000", text "10.0.0.1:8000"⟩,
    ⟨text "/U/Lo/10.0.0.1:8000", text "10.0.0.1:8000"⟩]

def sampleAnswer (_ : Bytes) : Option Json :=
  some (.object [("header", .object []), ("kvs", .array [.object
    [("key", .string (b64Encode (text "/U/L/10.0.0.1:8000"))),
      ("value", .string (b64Encode (text "10.0.0.1:8000")))]])])

theorem registered_found_sample :
    ∃ instances revision,
      seedEntry sampleAnswer samplePath.bytes (text "answer") = some (instances, revision) ∧
      instances.Nodup ∧ text "10.0.0.1:8000" ∈ instances := by
  have hputs : ∀ r ∈ sampleProvider.registerServiceToEtcd,
      ReadsMembers sampleGateway r.members := by
    intro r hr
    rcases List.mem_pair.mp hr with rfl | rfl
    · exact fun _ => rfl
    · exact fun _ => rfl
  have hkv (r : PutRequest) :
      IsKeyValue ⟨r.key, r.value⟩ (.object (r.members.map (fun m => (m.1, m.2.json)))) :=
    ⟨trivial, isBase64_iff.mpr rfl, isBase64_iff.mpr rfl⟩
  have hstored : Holds sampleGateway (sampleProvider.registerServiceToEtcd.map PutRequest.body)
      sampleStored := by
    have hfirst := Holds.empty.put (gateway_put (hputs _ (List.mem_cons_self ..))) (hkv _)
    exact hfirst.put (gateway_put (hputs _ (List.mem_cons_of_mem _ (List.mem_cons_self ..))))
      (hkv _)
  have hrange : ReadsMembers sampleGateway (rangeMembers samplePath.pre.bytes) := fun _ => rfl
  have hanswer : Answered sampleGateway sampleAnswer sampleStored (rangeBody samplePath.pre.bytes)
      (text "answer") := by
    refine ⟨_, gateway_range hrange, samplePath.pre.bytes, prefixEnd samplePath.pre.bytes,
      isBase64_iff.mpr rfl,
      isBase64_iff.mpr rfl, by
        decide, _, rfl, rfl, [⟨text "/U/L/10.0.0.1:8000", text "10.0.0.1:8000"⟩], ?_, by decide⟩
    exact .cons ⟨trivial, isBase64_iff.mpr rfl, isBase64_iff.mpr rfl⟩ .nil
  obtain ⟨instances, revision, hseed, hnodup, hmem, -⟩ :=
    registered_found sampleGateway sampleAnswer [sampleProvider]
    sampleProvider.registerServiceToEtcd (by simp) hputs hstored samplePath hrange hanswer
  refine ⟨instances, revision, hseed, hnodup,
    (hmem _).mpr ⟨sampleProvider, List.mem_singleton_self _, ?_, by decide⟩⟩
  exact ⟨_, List.mem_singleton_self _, rfl, List.mem_cons_self ..⟩

end found

end KimRpc.Discovery
