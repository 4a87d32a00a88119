import KimRpc.Client.Channel

/-! What one step of the channel can do to its calls: at most one call moves, and
along the control flow of `callAsync`. -/

namespace KimRpc.Client

open Wire

def CallPc.next : CallPc → List CallPc
  | .preparing => [.failing]
  | .connecting => [.registering, .joining]
  | .joining => [.opening]
  | .opening => [.failing, .registering]
  | .registering => [.locking]
  | .locking => [.sending]
  | .sending => [.sending, .sent, .undoing]
  | .undoing => [.failing, .returned]
  | .failing => [.inDone]
  | .inDone => [.returned]
  | .absent | .returned | .sent => []

structure Call.Moves (call call' : Call) : Prop where
  pc : call'.pc ∈ call.pc.next
  requestId : call'.requestId = call.requestId
  error : call'.error = call.error ∨ call'.error ≠ some .rpcTimeout

namespace Channel

variable {env : ChannelEnv} {s t : Channel} {a : Action} {c : ℕ}

lemma step_eq (h : s.step env a = some t) : s.Enabled a ∧ t = s.effect env a := by
  simp only [step, Option.ite_none_right_eq_some, Option.some.injEq] at h
  exact ⟨h.1.2, h.2.symm⟩

variable (s c)

lemma getRpcAddress_error {methodPath : Bytes} {address : RpcAddress} {error : Reason}
    (h : getRpcAddress methodPath address = .error error) : error ≠ .rpcTimeout := by
  cases address <;> simp [getRpcAddress] at h <;> simp [← h]

lemma prepare_cases (env : ChannelEnv) (inv : Invocation) :
    s.prepare env c inv = s.failWith c .serializeRequest ∨
    ∃ call : Call, (call.pc = .failing ∨ call.pc = .connecting) ∧ call.requestId = s.nextId ∧
      (call.error = (s.calls c).error ∨ call.error ≠ some .rpcTimeout) ∧
      s.prepare env c inv = { s.setCall c call with nextId := s.nextId + 1 } := by
  cases hargs : inv.argsStr with
  | none => exact .inl (by simp [prepare, hargs])
  | some argsStr =>
    right
    cases hsend : sendRpcStr env.codec ⟨inv.serviceName, inv.methodName, s.nextId, argsStr⟩ with
    | none =>
      refine ⟨{ s.calls c with
        requestId := s.nextId, pc := .failing, error := some .serializeRpcHeader }, ?_⟩
      simp [prepare, hargs, hsend, allocate, failWith, setCall]
    | some sendRpcStr =>
      cases hg : getRpcAddress inv.methodPath inv.address with
      | error error =>
        have he := getRpcAddress_error hg
        refine ⟨{ s.calls c with requestId := s.nextId, pc := .failing, error := some error }, ?_⟩
        simp [prepare, hargs, hsend, hg, allocate, failWith, setCall, he]
      | ok hostData =>
        refine ⟨{ s.calls c with
          requestId := s.nextId, pc := .connecting, hostData := hostData,
          sendRpcStr := sendRpcStr }, ?_⟩
        simp [prepare, hargs, hsend, hg, allocate, setCall]

lemma openConnection_cases (result : Opening) :
    (∃ reason, reason ≠ .rpcTimeout ∧ s.openConnection c result = { s.failWith c reason with
      connMtx := none }) ∨
    (result = .connected ∧ s.openConnection c result =
      { s.goto c .registering with
        connMtx := none, clientfd := some s.links.length, connectedHost := (s.calls c).hostData,
        running := true, recvThread := some .top,
        links := s.links ++ [⟨(s.calls c).hostData, []⟩] }) := by
  by_cases hc : ':' ∈ (s.calls c).hostData.toList
  · cases result with
    | socketError errno => exact .inl ⟨.createSocket errno, by simp, by simp [openConnection, hc]⟩
    | connectError errno => exact .inl ⟨.connect errno, by simp, by simp [openConnection, hc]⟩
    | connected => exact .inr ⟨rfl, by simp [openConnection, hc]⟩
  · exact .inl ⟨.addressInvalid (s.calls c).hostData, by simp, by simp [openConnection, hc]⟩

lemma send_cases (ret : ℕ) (hpc : (s.calls c).pc = .sending) :
    ∃ call : Call, call.pc ∈ [CallPc.sending, .sent] ∧ call.requestId = (s.calls c).requestId ∧
      call.error = (s.calls c).error ∧ ∃ mtx, s.send c ret =
        { s.setCall c call with links := s.write c ret, sendMtx := mtx } := by
  by_cases hw : (s.calls c).written + ret < (s.calls c).sendRpcStr.length
  · refine ⟨{ s.calls c with
      written := (s.calls c).written + ret }, by simp [hpc], rfl, rfl, s.sendMtx, ?_⟩
    simp [send, hw, setCall]
  · refine ⟨{ s.calls c with
      written := (s.calls c).written + ret, pc := .sent }, by simp, rfl, rfl, none, ?_⟩
    simp [send, hw]

variable {s c}

inductive CallStep (s t : Channel) : Prop where
  | idle (hcalls : t.calls = s.calls) (hstarted : t.started = s.started) (hid : t.nextId = s.nextId)
  | started (call : Call) (hpc : call.pc = .preparing) (herror : call.error = none)
      (hcalls : t.calls = Function.update s.calls s.started call)
      (hstarted : t.started = s.started + 1)
      (hid : t.nextId = s.nextId) (halive : t.destructor = .alive)
  | moved (c : ℕ) (call : Call) (hmoves : (s.calls c).Moves call)
      (hcalls : t.calls = Function.update s.calls c call)
      (hstarted : t.started = s.started) (hid : t.nextId = s.nextId)
  | allocated (c : ℕ) (call : Call) (hpc : (s.calls c).pc = .preparing) (hpc' : call.pc = .failing ∨
      call.pc = .connecting)
      (hrequest : call.requestId = s.nextId)
      (herror : call.error = (s.calls c).error ∨ call.error ≠ some .rpcTimeout)
      (hcalls : t.calls = Function.update s.calls c call) (hstarted : t.started = s.started)
      (hid : t.nextId = s.nextId + 1)

lemma goto_moves (pc : CallPc) (h : pc ∈ (s.calls c).pc.next) :
    (s.calls c).Moves { s.calls c with pc := pc } :=
  ⟨h, rfl, .inl rfl⟩

lemma fail_moves (reason : Reason) (hr : reason ≠ .rpcTimeout)
    (h : .failing ∈ (s.calls c).pc.next) :
    (s.calls c).Moves { s.calls c with pc := .failing, error := some reason } :=
  ⟨h, rfl, .inr (by simpa using hr)⟩

lemma step_calls (h : s.step env a = some t) : CallStep s t := by
  obtain ⟨he, rfl⟩ := step_eq h
  cases a with
  | start parent =>
    have halive : s.destructor = .alive := by
      cases parent with
      | none => exact he
      | some p => exact he.1
    exact .started _ rfl rfl rfl rfl rfl halive
  | prepare c inv =>
    simp only [Enabled] at he
    rcases s.prepare_cases c env inv with hp | ⟨call, hpc, hid, herr, hp⟩
    · rw [effect, hp]
      exact .moved c _ (fail_moves .serializeRequest (by simp) (by simp [he, CallPc.next])) rfl rfl
        rfl
    · rw [effect, hp]
      exact .allocated c call he hpc hid herr rfl rfl rfl
  | connect c =>
    simp only [effect, Channel.connect]
    split_ifs
    · exact .moved c _ (goto_moves .registering (by simp [he.1, CallPc.next])) rfl rfl rfl
    · exact .moved c _ (goto_moves .joining (by simp [he.1, CallPc.next])) rfl rfl rfl
  | join c =>
    simp only [effect, Channel.join]
    split_ifs
    · exact .idle rfl rfl rfl
    · exact .moved c _ (goto_moves .opening (by simp [he.1, CallPc.next])) rfl rfl rfl
  | openConnection c result =>
    simp only [Enabled] at he
    rcases s.openConnection_cases c result with ⟨reason, hr, ho⟩ | ⟨-, ho⟩
    · rw [effect, ho]
      exact .moved c _ (fail_moves reason hr (by simp [he, CallPc.next])) rfl rfl rfl
    · rw [effect, ho]
      exact .moved c _ (goto_moves .registering (by simp [he, CallPc.next])) rfl rfl rfl
  | register c =>
    simp only [Enabled] at he
    exact .moved c _ (goto_moves .locking (by simp [he, CallPc.next])) rfl rfl rfl
  | lockSend c =>
    exact .moved c { s.calls c with
        pc := .sending, written := 0 } ⟨by simp [he.1, CallPc.next], rfl, .inl rfl⟩
      rfl rfl rfl
  | send c ret =>
    obtain ⟨call, hpc, hid, herror, mtx, hs⟩ := s.send_cases c ret he.1
    rw [effect, hs]
    refine .moved c call ⟨?_, hid, .inl herror⟩ rfl rfl rfl
    rw [he.1, CallPc.next]
    exact List.mem_append_left [.undoing] hpc
  | sendFail c errno =>
    simp only [Enabled] at he
    exact .moved c { s.calls c with pc := .undoing, error := some (.send errno) }
      ⟨by simp [he, CallPc.next], rfl, .inr (by simp)⟩ rfl rfl rfl
  | undo c =>
    simp only [Enabled] at he
    simp only [effect, Channel.undo]
    cases s.pending.lookup (s.calls c).requestId with
    | none => exact .moved c _ (goto_moves .returned (by simp [he, CallPc.next])) rfl rfl rfl
    | some p => exact .moved c _ (goto_moves .failing (by simp [he, CallPc.next])) rfl rfl rfl
  | fail c =>
    simp only [Enabled] at he
    exact .moved c _ (goto_moves .inDone (by simp [he, CallPc.next])) rfl rfl rfl
  | «return» c => exact .moved c _ (goto_moves .returned (by simp [he.1, CallPc.next])) rfl rfl rfl
  | recvTop =>
    simp only [effect, Channel.recvTop]
    split_ifs <;> exact .idle rfl rfl rfl
  | recvTake id body =>
    simp only [effect, Channel.recvTake, take, setBatch, record]
    cases s.pending.lookup id <;> exact .idle rfl rfl rfl
  | tick =>
    simp only [effect, Channel.tick, take, setBatch, record]
    split_ifs <;> exact .idle rfl rfl rfl
  | runDone w id =>
    simp only [effect, Channel.runDone, setBatch, record]
    cases (s.batches w).todo.lookup id <;> exact .idle rfl rfl rfl
  | free w =>
    simp only [effect, Channel.free]
    cases (s.batches w).running <;> exact .idle rfl rfl rfl
  | recvFailAll | closeAll =>
    simp only [effect, failAllPending, take, setBatch, record]
    exact .idle rfl rfl rfl
  | recv _ | recvFail | recvNext | recvFinish | timerNext | timerExit | destroy | joinTimer |
      teardown
  | joinRecv | destroyed | clock _ | setTimeoutMs _ => exact .idle rfl rfl rfl

end Channel

end KimRpc.Client
