import KimRpc.Client.Connections

/-! Requests and hosts: on which connections the bytes of a call are sent when
other calls reconnect the channel meanwhile. -/

namespace KimRpc.Client.Channel

open Library.Runs

variable {env : ChannelEnv} {s t : Channel} {a : Action} {c : ℕ}

/-- Every piece of a request was sent on a connection opened to the host of its call. -/
def Delivered (s : Channel) : Prop :=
  ∀ link ∈ s.links, ∀ e ∈ link.wire, link.hostData = (s.calls e.1).hostData

/-- No connection is opened while a call to another host is between `ensureConnected` and
the end of its send. -/
def keepsHosts (s : Channel) : Action → Bool
  | .openConnection c .connected => ':' ∈ (s.calls c).hostData.toList →
      ∀ d < s.started, (s.calls d).pc.phase ∈ [Phase.bound, .sending] →
      (s.calls d).hostData = (s.calls c).hostData
  | _ => true

structure Routed (s : Channel) : Prop where
  current : ∀ fd, s.clientfd = some fd → ∃ link, s.links[fd]? = some link ∧
      link.hostData = s.connectedHost
  bound : s.clientfd ≠ none → ∀ c, (s.calls c).pc.phase ∈ [Phase.bound, .sending] →
    (s.calls c).hostData = s.connectedHost
  wire : ∀ link ∈ s.links, ∀ e ∈ link.wire,
      (s.calls e.1).pc.phase ∈ [Phase.sending, .sent, .ended] ∧
    link.hostData = (s.calls e.1).hostData

lemma Routed.delivered (hi : s.Routed) : s.Delivered := fun link hl e he => (hi.wire link hl e he).2

lemma Routed.wire_update (hi : s.Routed) {call : Call}
    (hcalls : t.calls = Function.update s.calls c call)
    (hlinks : t.links = s.links) (hhost : call.hostData = (s.calls c).hostData)
    (hphase : (s.calls c).pc.phase ∈ [Phase.sending, .sent, .ended] →
      call.pc.phase ∈ [Phase.sending, .sent, .ended]) :
    ∀ link ∈ t.links, ∀ e ∈ link.wire, (t.calls e.1).pc.phase ∈ [Phase.sending, .sent, .ended] ∧
      link.hostData = (t.calls e.1).hostData := by
  intro link hl e he
  rw [hlinks] at hl
  obtain ⟨hp, hh⟩ := hi.wire link hl e he
  rw [hcalls]
  by_cases hec : e.1 = c
  · rw [hec] at hp hh ⊢
    rw [Function.update_self, hhost]
    exact ⟨hphase hp, hh⟩
  · rw [Function.update_of_ne hec]
    exact ⟨hp, hh⟩

lemma Routed.steady (hi : s.Routed) (hcalls : ∀ d, (s.calls d).Drifts (t.calls d))
    (hlinks : t.links = s.links)
    (hfd : t.clientfd = s.clientfd ∧ t.connectedHost = s.connectedHost ∨ t.clientfd = none) :
    t.Routed := by
  refine ⟨?_, ?_, ?_⟩
  · intro fd hf
    rcases hfd with ⟨h, hh⟩ | h
    · rw [hlinks, hh]
      exact hi.current fd (h ▸ hf)
    · simp [h] at hf
  · intro hn d hd
    rcases hfd with ⟨h, hh⟩ | h
    swap
    · exact absurd h hn
    rw [hh]
    obtain ⟨hphase, hkeeps⟩ := (hcalls d).late rfl hd
    rw [hkeeps.hostData]
    exact hi.bound (h ▸ hn) d (hphase ▸ hd)
  · intro link hl e he
    rw [hlinks] at hl
    obtain ⟨hp, hh⟩ := hi.wire link hl e he
    obtain ⟨hphase, hkeeps⟩ := (hcalls e.1).kept hp
    rw [hphase, hkeeps.hostData]
    exact ⟨hp, hh⟩

lemma Routed.step (hi : s.Routed) (hs : s.Sound) (hok : s.keepsHosts a = true)
    (h : s.step env a = some t) :
    t.Routed := by
  cases conn_step hs.called hs.locked h with
  | steady hcalls hlinks hmtx hfd => exact hi.steady hcalls hlinks hfd
  | @reused c hpc hconn =>
    refine ⟨hi.current, ?_, hi.wire_update rfl rfl rfl (by simp [hpc, CallPc.phase])⟩
    intro hn
    exact (Function.forall_update_iff s.calls
      (fun _ (call : Call) => call.pc.phase ∈ [Phase.bound, .sending] →
      call.hostData = s.connectedHost)).mpr ⟨fun _ => hconn.2.2.symm, fun d _ => hi.bound hn d⟩
  | @opened c hpc hhost =>
    have hother : ∀ d, (s.calls d).pc.phase ∈ [Phase.bound, .sending] →
        (s.calls d).hostData = (s.calls c).hostData := by
      intro d hd
      by_cases hlt : d < s.started
      · exact of_decide_eq_true hok hhost d hlt hd
      · simp [hs.called.absent d (by omega), CallPc.phase] at hd
    rw [opened_eq hhost]
    refine ⟨?_, ?_, ?_⟩
    · rintro fd hf
      cases Option.some.inj hf
      exact ⟨_, List.getElem?_concat_length, rfl⟩
    · intro _
      exact (Function.forall_update_iff s.calls
        (fun _ (call : Call) => call.pc.phase ∈ [Phase.bound, .sending] →
        call.hostData = (s.calls c).hostData)).mpr ⟨fun _ => rfl, fun d _ => hother d⟩
    · intro link hl e he
      rcases List.mem_append.mp hl with hl | hl
      · have hwire :=
          hi.wire_update (t := s.goto c .registering) rfl rfl rfl (by simp [hpc, CallPc.phase])
        exact hwire link hl e he
      · cases List.mem_singleton.mp hl
        simp at he
  | @locked c hpc hmtx =>
    refine ⟨hi.current, ?_, hi.wire_update rfl rfl rfl (by simp [hpc, CallPc.phase])⟩
    intro hn
    exact (Function.forall_update_iff s.calls
      (fun _ (call : Call) => call.pc.phase ∈ [Phase.bound, .sending] →
      call.hostData = s.connectedHost)).mpr ⟨fun _ => hi.bound hn c (by simp [hpc, CallPc.phase]),
        fun d _ => hi.bound hn d⟩
  | @wrote c ret fd hpc hfd hret hle =>
    have hcur := hi.bound (by simp [hfd]) c (by simp [hpc, CallPc.phase])
    obtain ⟨call, mtx, hhost, -, -, hpc', hsend⟩ := wrote_eq ret hpc hle
    have hphase : call.pc.phase ∈ [Phase.sending, .sent, .ended] := by
      rcases hpc' with ⟨hp, -⟩ | ⟨hp, -⟩ <;> simp [hp, CallPc.phase]
    have hwire := hi.wire_update (t := s.setCall c call) rfl rfl hhost (fun _ => hphase)
    rw [hsend]
    refine ⟨?_, ?_, ?_⟩
    · intro k hk
      obtain ⟨link, hl, hh⟩ := hi.current k hk
      rw [write_getElem? hfd]
      split_ifs
      · exact ⟨link.append c (s.piece c ret), by rw [hl]; rfl, hh⟩
      · exact ⟨link, hl, hh⟩
    · intro hn
      exact (Function.forall_update_iff s.calls
        (fun _ (call : Call) => call.pc.phase ∈ [Phase.bound, .sending] →
        call.hostData = s.connectedHost)).mpr ⟨fun _ => hhost.trans hcur, fun d _ => hi.bound hn d⟩
    · intro link hl e he
      rcases mem_write hfd hl with hl | ⟨old, hold, rfl⟩
      · exact hwire link hl e he
      · rcases List.mem_append.mp he with he | he
        · exact hwire old (List.mem_of_getElem? hold) e he
        · cases List.mem_singleton.mp he
          obtain ⟨link, hl, hh⟩ := hi.current fd hfd
          cases Option.some.inj (hold.symm.trans hl)
          simp only [setCall, Function.update_self]
          exact ⟨hphase, by rw [hhost, hcur]; exact hh⟩
  | @stopped c errno hpc =>
    refine ⟨hi.current, ?_, hi.wire_update rfl rfl rfl (by simp [CallPc.phase])⟩
    intro hn
    exact (Function.forall_update_iff s.calls
      (fun _ (call : Call) => call.pc.phase ∈ [Phase.bound, .sending] →
      call.hostData = s.connectedHost)).mpr ⟨by simp [CallPc.phase], fun d _ => hi.bound hn d⟩

lemma routed_run {as : List Action}
    (h : Run (Channel.step env) (fun u a => u.keepsHosts a = true) constructed as t) :
    t.Routed := by
  refine h.invariant_with (K := Sound) ?_ (fun _ _ hr => sound_run hr)
    (fun _ _ _ hs _ hi hok hstep => hi.step hs hok hstep)
  exact ⟨by simp [constructed], by simp [constructed], by simp [constructed]⟩

/-- When the channel is not taken to another host under a call that has still to send,
every request is sent to the host of its call. -/
theorem requests_delivered (env : ChannelEnv) {as : List Action} {t : Channel}
    (h : Run (Channel.step env) (fun u a => u.keepsHosts a = true) constructed as t) :
    t.Delivered :=
  (routed_run h).delivered

/-- The second call takes the channel to its host before the first one sends. -/
def strayRun : List Action :=
  [.start none, .prepare 0 (sampleInvocation "10.0.0.1:80"), .connect 0, .join 0,
    .openConnection 0 .connected,
    .start none, .prepare 1 (sampleInvocation "10.0.0.2:80"), .connect 1, .recvTop, .recvFail,
    .recvFailAll,
    .recvFinish, .join 1, .openConnection 1 .connected, .register 0, .lockSend 0, .send 0 12]

theorem stray_request_sample : ∃ t, Run (Channel.step sampleEnv) Any constructed strayRun t ∧
    ¬ t.Delivered := by
  obtain ⟨t, ht, hd⟩ : ∃ t, exec (Channel.step sampleEnv) constructed strayRun = some t ∧
      decide (∃ link ∈ t.links, ∃ e ∈ link.wire, link.hostData ≠ (t.calls e.1).hostData) = true :=
    exec_any (by decide)
  obtain ⟨link, hl, e, he, hne⟩ := of_decide_eq_true hd
  exact ⟨t, .of_exec ht (by decide), fun h => hne (h link hl e he)⟩

theorem requests_delivered_sample :
    ∃ t, exec (Channel.step sampleEnv) constructed sparingRun = some t ∧
    t.links.length = 2 ∧ t.Delivered := by
  obtain ⟨t, ht, hd⟩ : ∃ t, exec (Channel.step sampleEnv) constructed sparingRun = some t ∧
      decide (t.links.length = 2) = true := exec_any (by decide)
  exact ⟨t, ht, of_decide_eq_true hd, requests_delivered sampleEnv (.of_exec ht (by decide))⟩

end KimRpc.Client.Channel
