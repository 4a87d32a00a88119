import KimRpc.Client.RecvLoop

/-! One call through each of the two client channels, with no other call in
flight: what the caller sees when any step may fail. The exception that `stoi`
throws on a port that is no number leaves both alike and is not an outcome. -/

namespace KimRpc.Client

open Library.LittleEndian Wire

/-- What a call meets on its way. The server echoes the request id it was sent;
a serialised message is shorter than 2 GiB. -/
structure CallEnv (Msg : Type) where
  codec : HeaderCodec
  serviceName : Bytes
  methodName : Bytes
  argsStr : Option Bytes
  requestId : UInt64
  hostData : Except String String
  connectError : Option String
  writeError : Option String
  body : Bytes
  body_short : body.length < 2 ^ 31
  /-- How many bytes of the response arrive before the connection is lost, if it is. -/
  lostAfter : Option ℕ
  parse : Bytes → Option Msg

structure Outcome (Msg : Type) where
  response : Option Msg
  failed : Option String
  doneRuns : ℕ
  deriving DecidableEq

namespace CallEnv

variable {Msg : Type} (env : CallEnv Msg)

def arrived (requestId : UInt64) : Bytes :=
  match env.lostAfter with
  | none => onPoolDone requestId (some env.body)
  | some n => (onPoolDone requestId (some env.body)).take n

def readExact (stream : Bytes) (n : ℕ) : Option (Bytes × Bytes) :=
  if stream.length < n then none else some (stream.take n, stream.drop n)

def readResponse (stream : Bytes) : Option Bytes :=
  (readExact stream 4).bind (fun r => (readExact r.2 (value r.1)).map Prod.fst)

def orFail {α : Type} (x : Option α) (reason : String) : Except String α :=
  match x with
  | none => .error reason
  | some a => .ok a

def failOn (error : Option String) : Except String Unit :=
  match error with
  | none => .ok ()
  | some reason => .error reason

def sendRequest (requestId : UInt64) (badAddress : String → String) : Except String Unit := do
  let argsStr ← orFail env.argsStr "serialize request error!"
  let _ ← orFail (sendRpcStr env.codec ⟨env.serviceName, env.methodName, requestId, argsStr⟩)
    "serialize rpcHeader error!"
  let hostData ← env.hostData
  failOn (if ':' ∈ hostData.toList then none else some (badAddress hostData))
  failOn env.connectError
  failOn env.writeError

def text (bs : Bytes) : String := String.ofList (bs.map (fun b => Char.ofNat b.toNat))

/-- What `snprintf` leaves of the response bytes in a buffer of 2048. -/
def parseErrorText (responseStr : Bytes) : String :=
  String.ofList
    (("parse error! response_str:" ++ text (responseStr.takeWhile (· ≠ 0))).toList.take 2047)

def uringSteps : Except String Msg := do
  env.sendRequest 0 (fun _ => text env.methodName ++ " address is invalid")
  let responseStr ← orFail (readResponse (env.arrived 0)) "recv error: connection closed"
  orFail (env.parse responseStr) (parseErrorText responseStr)

/-- `KimRpcUringChannel::CallMethod`: no request id in the header, and a failure
returns without running done. -/
def uringCallMethod : Outcome Msg :=
  match env.uringSteps with
  | .ok response => ⟨some response, none, 1⟩
  | .error reason => ⟨none, some reason, 0⟩

/-- The receive loop with this call alone in the table, on the bytes that arrive. -/
def received : Receiving Msg :=
  (env.arrived env.requestId).foldl (Receiving.recvByte (fun _ => env.parse))
    ⟨.size [], AList.singleton env.requestId ⟨0, none⟩, []⟩

def channelSteps : Except String Msg := do
  env.sendRequest env.requestId (fun hostData => hostData ++ " address is invalid")
  let completion ← orFail env.received.completed.head? "connection closed"
  orFail completion.response "parse response error!"

/-- `KimRpcChannel::CallMethod` with a done closure, that is `callAsync`: its fail
lambda, the receive loop and `failAllPending` all run done. -/
def channelCallMethod : Outcome Msg :=
  match env.channelSteps with
  | .ok response => ⟨some response, none, 1⟩
  | .error reason => ⟨none, some reason, 1⟩

def Agree : Prop :=
  env.uringCallMethod.response = env.channelCallMethod.response ∧
    env.uringCallMethod.failed.isSome = env.channelCallMethod.failed.isSome ∧
    env.uringCallMethod.doneRuns = 1 ∧ env.channelCallMethod.doneRuns = 1

instance [DecidableEq Msg] : Decidable env.Agree := inferInstanceAs (Decidable (_ ∧ _ ∧ _ ∧ _))

structure Reaches : Prop where
  args : ∃ argsStr, env.argsStr = some argsStr ∧
    (sendRpcStr env.codec ⟨env.serviceName, env.methodName, 0, argsStr⟩).isSome ∧
    (sendRpcStr env.codec ⟨env.serviceName, env.methodName, env.requestId, argsStr⟩).isSome
  address : ∃ hostData, env.hostData = .ok hostData ∧ ':' ∈ hostData.toList
  connected : env.connectError = none
  written : env.writeError = none
  arrives : ∀ n, env.lostAfter = some n → 12 + env.body.length ≤ n

lemma orFail_ok {α : Type} {x : Option α} {reason : String} {a : α} : orFail x reason = .ok a ↔
    x = some a := by
  cases x <;> simp [orFail]

lemma failOn_ok {error : Option String} {u : Unit} : failOn error = .ok u ↔ error = none := by
  cases error <;> simp [failOn]

lemma bind_ok {α β : Type} {x : Except String α} {f : α → Except String β} {b : β} :
    (x >>= f) = .ok b ↔ ∃ a, x = .ok a ∧ f a = .ok b := by
  cases x <;> simp [bind, Except.bind]

lemma sendRequest_ok (id : UInt64) (badAddress : String → String) :
    env.sendRequest id badAddress = .ok () ↔
      (∃ argsStr, env.argsStr = some argsStr ∧
        (sendRpcStr env.codec ⟨env.serviceName, env.methodName, id, argsStr⟩).isSome) ∧
      (∃ hostData, env.hostData = .ok hostData ∧ ':' ∈ hostData.toList) ∧
      env.connectError = none ∧ env.writeError = none := by
  simp only [sendRequest, bind_ok, orFail_ok, failOn_ok, Option.isSome_iff_exists]
  constructor
  · rintro ⟨argsStr, ha, frame, hf, hostData, hh, _, hc, _, hconn, hw⟩
    split_ifs at hc with hcolon
    exact ⟨⟨argsStr, ha, frame, hf⟩, ⟨hostData, hh, hcolon⟩, hconn, hw⟩
  · rintro ⟨⟨argsStr, ha, frame, hf⟩, ⟨hostData, hh, hc⟩, hconn, hw⟩
    exact ⟨argsStr, ha, frame, hf, hostData, hh, (), if_pos hc, (), hconn, hw⟩

lemma size_value : value (encode 4 (8 + env.body.length)) = 8 + env.body.length := by
  have hs := env.body_short
  exact value_encode_of_lt (by omega)

lemma frame_split (id : UInt64) :
    responseFrame id env.body = encode 4 (8 + env.body.length) ++
      (encode 8 id.toNat ++ env.body) := by
  rw [responseFrame, List.append_assoc]

lemma readResponse_frame (id : UInt64) :
    readResponse (responseFrame id env.body) = some (encode 8 id.toNat ++ env.body) := by
  have ht : (responseFrame id env.body).take 4 = encode 4 (8 + env.body.length) := by
    rw [frame_split]
    exact List.take_left' (by simp)
  have hd : (responseFrame id env.body).drop 4 = encode 8 id.toNat ++ env.body := by
    rw [frame_split]
    exact List.drop_left' (by simp)
  have h4 : ¬ (responseFrame id env.body).length < 4 := by rw [responseFrame_length]; omega
  have hl : (encode 8 id.toNat ++ env.body).length = 8 + env.body.length := by simp
  have hn : ¬ (encode 8 id.toNat ++ env.body).length < 8 + env.body.length := by omega
  rw [readResponse, readExact, if_neg h4, Option.bind_some, ht, hd, size_value, readExact,
    if_neg hn,
    Option.map_some, ← hl, List.take_length]

lemma readResponse_cut (id : UInt64) {n : ℕ} (hn : n < 12 + env.body.length) :
    readResponse ((responseFrame id env.body).take n) = none := by
  have hlen : ((responseFrame id env.body).take n).length = n := by
    rw [List.length_take, responseFrame_length]
    omega
  rw [readResponse, readExact]
  by_cases h4 : n < 4
  · rw [if_pos (by omega), Option.bind_none]
  · have ht : ((responseFrame id env.body).take n).take 4 = encode 4 (8 + env.body.length) := by
      rw [List.take_take, Nat.min_eq_left (by omega), frame_split]
      exact List.take_left' (by simp)
    have hd : (((responseFrame id env.body).take n).drop 4).length < 8 + env.body.length := by
      rw [List.length_drop, hlen]
      omega
    rw [if_neg (by omega), Option.bind_some, ht, size_value, readExact, if_pos hd, Option.map_none]

lemma arrived_eq (id : UInt64) (h : ∀ n, env.lostAfter = some n → 12 + env.body.length ≤ n) :
    env.arrived id = responseFrame id env.body := by
  rw [arrived, onPoolDone_some]
  cases hl : env.lostAfter with
  | none => rfl
  | some n => exact List.take_of_length_le (by rw [responseFrame_length]; exact h n hl)

lemma arrives_of_read (id : UInt64) (h : readResponse (env.arrived id) ≠ none) :
    ∀ n, env.lostAfter = some n → 12 + env.body.length ≤ n := by
  intro n hn
  by_contra hlt
  apply h
  rw [arrived, hn, onPoolDone_some]
  exact env.readResponse_cut id (by omega)

lemma received_completed (h : ∀ n, env.lostAfter = some n → 12 + env.body.length ≤ n) :
    env.received.completed = [⟨env.requestId, ⟨0, none⟩, env.parse env.body⟩] := by
  have hs := env.body_short
  have hr :
      Receiving.Receives (fun _ => env.parse) ⟨.size [], AList.singleton env.requestId ⟨0, none⟩,
        []⟩
      (responseFrame env.requestId env.body ++ [])
      (Receiving.takeFrame (fun _ => env.parse) _ env.requestId env.body) :=
    .responseFrame env.requestId env.body rfl (by omega) (.done _)
  have hl : (AList.singleton env.requestId ⟨0, none⟩ : PendingMap).lookup env.requestId =
      some ⟨0, none⟩ := by
    rw [← AList.insert_empty, AList.lookup_insert]
  have he := hr.eq_foldl
  rw [List.append_nil] at he
  rw [received, env.arrived_eq _ h, ← he, Receiving.takeFrame, hl]
  rfl

lemma uringSteps_ok (response : Msg) :
    env.uringSteps = .ok response ↔
      env.sendRequest 0 (fun _ => text env.methodName ++ " address is invalid") = .ok () ∧
      (∀ n, env.lostAfter = some n → 12 + env.body.length ≤ n) ∧
      env.parse (encode 8 0 ++ env.body) = some response := by
  simp only [uringSteps, bind_ok, orFail_ok]
  constructor
  · rintro ⟨_, hsend, str, hread, hparse⟩
    have ha := env.arrives_of_read 0 (by simp [hread])
    rw [env.arrived_eq 0 ha, readResponse_frame] at hread
    obtain rfl := Option.some.inj hread
    exact ⟨hsend, ha, hparse⟩
  · rintro ⟨hsend, ha, hparse⟩
    refine ⟨(), hsend, encode 8 0 ++ env.body, ?_, hparse⟩
    rw [env.arrived_eq 0 ha, readResponse_frame]
    rfl

lemma channelSteps_ok (response : Msg)
    (ha : ∀ n, env.lostAfter = some n → 12 + env.body.length ≤ n) :
    env.channelSteps = .ok response ↔
      env.sendRequest env.requestId (fun hostData => hostData ++ " address is invalid") = .ok () ∧
      env.parse env.body = some response := by
  simp only [channelSteps, bind_ok, orFail_ok, env.received_completed ha, List.head?_cons,
    Option.some.injEq]
  constructor
  · rintro ⟨_, hsend, c, rfl, hparse⟩
    exact ⟨hsend, hparse⟩
  · rintro ⟨hsend, hparse⟩
    exact ⟨(), hsend, _, rfl, hparse⟩

lemma agree_iff_steps : env.Agree ↔ ∃ response, env.uringSteps = .ok response ∧
    env.channelSteps = .ok response := by
  rw [Agree, uringCallMethod, channelCallMethod]
  cases hu : env.uringSteps <;> cases hc : env.channelSteps <;> simp [eq_comm]

/-- The two channels agree exactly when nothing fails and the response body means
the same message with eight zero bytes, the echoed id, before it. -/
theorem channels_agree_iff :
    env.Agree ↔ env.Reaches ∧ ∃ response, env.parse env.body = some response ∧
      env.parse (encode 8 0 ++ env.body) = some response := by
  rw [agree_iff_steps]
  constructor
  · rintro ⟨response, hu, hc⟩
    obtain ⟨hsend, ha, hparse⟩ := (env.uringSteps_ok response).mp hu
    obtain ⟨hsend', hparse'⟩ := (env.channelSteps_ok response ha).mp hc
    obtain ⟨⟨argsStr, hargs, hser⟩, haddr, hconn, hw⟩ := (env.sendRequest_ok _ _).mp hsend
    obtain ⟨⟨argsStr', hargs', hser'⟩, _⟩ := (env.sendRequest_ok _ _).mp hsend'
    obtain rfl := Option.some.inj (hargs.symm.trans hargs')
    exact ⟨⟨⟨argsStr, hargs, hser, hser'⟩, haddr, hconn, hw, ha⟩, response, hparse', hparse⟩
  · rintro ⟨⟨⟨argsStr, hargs, hser, hser'⟩, haddr, hconn, hw, ha⟩, response, hparse', hparse⟩
    refine ⟨response, (env.uringSteps_ok response).mpr ⟨?_, ha, hparse⟩,
      (env.channelSteps_ok response ha).mpr ⟨?_, hparse'⟩⟩
    · exact (env.sendRequest_ok _ _).mpr ⟨⟨argsStr, hargs, hser⟩, haddr, hconn, hw⟩
    · exact (env.sendRequest_ok _ _).mpr ⟨⟨argsStr, hargs, hser'⟩, haddr, hconn, hw⟩

/-- A protobuf parser rejects the tag zero, so no call agrees. -/
lemma never_agree (h : ∀ bs, env.parse (0 :: bs) = none) : ¬ env.Agree := by
  rw [channels_agree_iff]
  rintro ⟨_, response, _, hp⟩
  rw [show encode 8 0 ++ env.body = 0 :: (encode 7 0 ++ env.body) from rfl, h] at hp
  cases hp

end CallEnv

def sampleCall : CallEnv (List Library.ProtoWire.Field) where
  codec := protoCodec
  serviceName := [85]
  methodName := [76]
  argsStr := some []
  requestId := 1
  hostData := .ok "127.0.0.1:8000"
  connectError := none
  writeError := none
  body := [10, 1, 97]
  body_short := by decide
  lostAfter := none
  parse := Library.ProtoWire.fields

theorem channels_disagree_sample : ¬ sampleCall.Agree := by decide

end KimRpc.Client
