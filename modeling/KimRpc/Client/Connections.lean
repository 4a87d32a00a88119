import KimRpc.Client.Reconnect

/-! What one step of the channel does to its connections: which link is the current
one, to which host, who writes to it, and how far each call is with its frame. -/

namespace KimRpc.Client

open Wire Library.Runs

/-- How far a call is: it has no frame yet, looks for a connection, has been given
one, writes its frame, has written it whole, or has ended without that. -/
inductive Phase where
  | outside
  | selecting
  | bound
  | sending
  | sent
  | ended
  deriving DecidableEq, Repr

def CallPc.phase : CallPc → Phase
  | .absent | .preparing => .outside
  | .connecting | .joining | .opening => .selecting
  | .registering | .locking => .bound
  | .sending => .sending
  | .sent => .sent
  | .undoing | .failing | .inDone | .returned => .ended

structure Call.Keeps (call call' : Call) : Prop where
  hostData : call'.hostData = call.hostData
  sendRpcStr : call'.sendRpcStr = call.sendRpcStr
  written : call'.written = call.written

inductive Call.Drifts (call call' : Call) : Prop where
  | same (hphase : call'.pc.phase = call.pc.phase) (hkeeps : call.Keeps call')
  | outside (hphase : call.pc.phase = .outside)
      (hphase' : call'.pc.phase ∈ [Phase.outside, .selecting, .ended])
  | failed (hphase : call.pc.phase = .selecting) (hphase' : call'.pc.phase = .ended)

lemma Call.Drifts.refl (call : Call) : call.Drifts call := .same rfl ⟨rfl, rfl, rfl⟩

lemma Call.Drifts.kept {call call' : Call} (h : call.Drifts call')
    (hp : call.pc.phase ∈ [Phase.sending, .sent, .ended]) : call'.pc.phase = call.pc.phase ∧
    call.Keeps call' := by
  cases h with
  | same hphase hkeeps => exact ⟨hphase, hkeeps⟩
  | outside hphase _ => simp [hphase] at hp
  | failed hphase _ => simp [hphase] at hp

lemma Call.Drifts.late {call call' : Call} (h : call.Drifts call') {ph : Phase}
    (hp : call'.pc.phase = ph)
    (hph : ph ∈ [Phase.bound, .sending]) : call.pc.phase = ph ∧ call.Keeps call' := by
  cases h with
  | same hphase hkeeps => exact ⟨hphase.symm.trans hp, hkeeps⟩
  | outside _ hphase' => grind
  | failed _ hphase' => simp [← hp, hphase'] at hph

def Link.append (link : Link) (c : ℕ) (piece : Bytes) :
    Link := { link with wire := link.wire ++ [(c, piece)] }

namespace Channel

variable {env : ChannelEnv} {s t : Channel} {a : Action} {c : ℕ}

inductive ConnStep (s : Channel) : Action → Channel → Prop where
  | steady {a : Action} {t : Channel} (hcalls : ∀ d, (s.calls d).Drifts (t.calls d))
      (hlinks : t.links = s.links)
      (hmtx : t.sendMtx = s.sendMtx)
      (hfd : t.clientfd = s.clientfd ∧ t.connectedHost = s.connectedHost ∨ t.clientfd = none) :
      ConnStep s a t
  | reused {c : ℕ} (hpc : (s.calls c).pc = .connecting) (hconn : s.Connected (s.calls c).hostData) :
      ConnStep s (.connect c) (s.goto c .registering)
  | opened {c : ℕ} (hpc : (s.calls c).pc = .opening) (hhost : ':' ∈ (s.calls c).hostData.toList) :
      ConnStep s (.openConnection c .connected) (s.openConnection c .connected)
  | locked {c : ℕ} (hpc : (s.calls c).pc = .locking) (hmtx : s.sendMtx = none) :
      ConnStep s (.lockSend c) (s.lockSend c)
  | wrote {c ret fd : ℕ} (hpc : (s.calls c).pc = .sending) (hfd : s.clientfd = some fd)
      (hret : 0 < ret)
      (hle : (s.calls c).written + ret ≤ (s.calls c).sendRpcStr.length) : ConnStep s (.send c ret)
      (s.send c ret)
  | stopped {c : ℕ} (errno : ℕ) (hpc : (s.calls c).pc = .sending) :
      ConnStep s (.sendFail c errno) (s.sendFail c errno)

lemma drifts_update {call : Call} (hcalls : t.calls = Function.update s.calls c call)
    (h : (s.calls c).Drifts call)
    (d : ℕ) : (s.calls d).Drifts (t.calls d) := by
  rw [hcalls]
  by_cases hd : d = c
  · subst hd
    rwa [Function.update_self]
  · rw [Function.update_of_ne hd]
    exact Call.Drifts.refl _

lemma drifts_goto (c : ℕ) (pc : CallPc)
    (hcalls : t.calls = Function.update s.calls c { s.calls c with pc := pc })
    (hpc : pc.phase = (s.calls c).pc.phase) (d : ℕ) : (s.calls d).Drifts (t.calls d) :=
  drifts_update hcalls (.same hpc ⟨rfl, rfl, rfl⟩) d

lemma ConnStep.idle (hcalls : t.calls = s.calls) (hlinks : t.links = s.links)
    (hmtx : t.sendMtx = s.sendMtx)
    (hfd : t.clientfd = s.clientfd ∧ t.connectedHost = s.connectedHost ∨ t.clientfd = none) :
    ConnStep s a t :=
  .steady (fun _ => hcalls ▸ Call.Drifts.refl _) hlinks hmtx hfd

lemma conn_step (hcalled : s.Called) (hlocked : s.Locked) (h : s.step env a = some t) :
    ConnStep s a t := by
  obtain ⟨he, rfl⟩ := step_eq h
  cases a with
  | start parent =>
    have habs := hcalled.absent s.started le_rfl
    exact .steady (drifts_update rfl (.outside (by rw [habs]; rfl) (by simp [CallPc.phase]))) rfl
      rfl (.inl ⟨rfl, rfl⟩)
  | prepare c inv =>
    simp only [Enabled] at he
    have hout : (s.calls c).pc.phase = .outside := by rw [he]; rfl
    rcases s.prepare_cases c env inv with hp | ⟨call, hpc, -, -, hp⟩ <;> rw [effect, hp]
    · exact .steady (drifts_update rfl (.outside hout (by simp [CallPc.phase]))) rfl rfl
        (.inl ⟨rfl, rfl⟩)
    · refine .steady (drifts_update rfl (.outside hout ?_)) rfl rfl (.inl ⟨rfl, rfl⟩)
      rcases hpc with hpc | hpc <;> simp [hpc, CallPc.phase]
  | connect c =>
    by_cases hconn : s.Connected (s.calls c).hostData
    · simp only [effect, Channel.connect, hconn, if_true]
      exact .reused he.1 hconn
    · simp only [effect, Channel.connect, hconn, if_false]
      exact .steady (drifts_goto c .joining rfl (by rw [he.1]; rfl)) rfl rfl (.inr rfl)
  | join c =>
    have hnone : s.clientfd = none := hlocked.closed (by simp [(hlocked.holder c).mpr (.inl he.1)])
    simp only [effect, Channel.join]
    split_ifs
    · exact .idle rfl rfl rfl (.inl ⟨rfl, rfl⟩)
    · exact .steady (drifts_goto c .opening rfl (by rw [he.1]; rfl)) rfl rfl (.inr hnone)
  | openConnection c result =>
    simp only [Enabled] at he
    have hsel : (s.calls c).pc.phase = .selecting := by rw [he]; rfl
    by_cases hhost : ':' ∈ (s.calls c).hostData.toList
    · cases result with
      | connected => exact .opened he hhost
      | socketError errno =>
        simp only [effect, Channel.openConnection, hhost, if_true]
        exact .steady (drifts_update rfl (.failed hsel rfl)) rfl rfl (.inl ⟨rfl, rfl⟩)
      | connectError errno =>
        simp only [effect, Channel.openConnection, hhost, if_true]
        exact .steady (drifts_update rfl (.failed hsel rfl)) rfl rfl (.inl ⟨rfl, rfl⟩)
    · simp only [effect, Channel.openConnection, hhost, if_false]
      exact .steady (drifts_update rfl (.failed hsel rfl)) rfl rfl (.inl ⟨rfl, rfl⟩)
  | register c =>
    simp only [Enabled] at he
    simp only [effect, Channel.register, record]
    exact .steady (drifts_goto c .locking rfl (by rw [he]; rfl)) rfl rfl (.inl ⟨rfl, rfl⟩)
  | lockSend c => exact .locked he.1 he.2
  | send c ret =>
    obtain ⟨fd, hfd⟩ := Option.ne_none_iff_exists'.mp he.2.1
    exact .wrote he.1 hfd he.2.2.1 he.2.2.2
  | sendFail c errno => exact .stopped errno he
  | undo c =>
    simp only [Enabled] at he
    simp only [effect, Channel.undo, record]
    split
    · exact .steady (drifts_goto c .returned rfl (by rw [he]; rfl)) rfl rfl (.inl ⟨rfl, rfl⟩)
    · exact .steady (drifts_goto c .failing rfl (by rw [he]; rfl)) rfl rfl (.inl ⟨rfl, rfl⟩)
  | fail c =>
    simp only [Enabled] at he
    simp only [effect, Channel.fail, record]
    exact .steady (drifts_goto c .inDone rfl (by rw [he]; rfl)) rfl rfl (.inl ⟨rfl, rfl⟩)
  | «return» c =>
    exact .steady (drifts_goto c .returned rfl (by rw [he.1]; rfl)) rfl rfl (.inl ⟨rfl, rfl⟩)
  | recvTop =>
    simp only [effect, Channel.recvTop]
    split_ifs <;> exact .idle rfl rfl rfl (.inl ⟨rfl, rfl⟩)
  | recvFailAll | closeAll =>
    simp only [effect, failAllPending, take, record, setBatch]
    exact .idle rfl rfl rfl (.inl ⟨rfl, rfl⟩)
  | recvTake id body =>
    simp only [effect, Channel.recvTake, take, record, setBatch]
    split <;> exact .idle rfl rfl rfl (.inl ⟨rfl, rfl⟩)
  | tick =>
    simp only [effect, Channel.tick, take, record, setBatch]
    split_ifs <;> exact .idle rfl rfl rfl (.inl ⟨rfl, rfl⟩)
  | runDone w id =>
    simp only [effect, Channel.runDone, record, setBatch]
    split <;> exact .idle rfl rfl rfl (.inl ⟨rfl, rfl⟩)
  | free w =>
    simp only [effect, Channel.free, record, setBatch]
    split <;> exact .idle rfl rfl rfl (.inl ⟨rfl, rfl⟩)
  | teardown => exact .idle rfl rfl rfl (.inr rfl)
  | _ => exact .idle rfl rfl rfl (.inl ⟨rfl, rfl⟩)

lemma opened_eq (hhost : ':' ∈ (s.calls c).hostData.toList) : s.openConnection c .connected =
    { s.goto c .registering with
      connMtx := none, clientfd := some s.links.length, connectedHost := (s.calls c).hostData,
      running := true, recvThread := some .top,
      links := s.links ++ [⟨(s.calls c).hostData, []⟩] } := by
  simp [openConnection, hhost]

lemma wrote_eq (ret : ℕ) (hpc : (s.calls c).pc = .sending)
    (hle : (s.calls c).written + ret ≤ (s.calls c).sendRpcStr.length) :
    ∃ (call : Call) (mtx : Option ℕ), call.hostData = (s.calls c).hostData ∧
      call.sendRpcStr = (s.calls c).sendRpcStr ∧ call.written = (s.calls c).written + ret ∧
      (call.pc = .sending ∧ call.written < call.sendRpcStr.length ∧ mtx = s.sendMtx ∨
        call.pc = .sent ∧ call.written = call.sendRpcStr.length ∧ mtx = none) ∧
      s.send c ret = { s.setCall c call with links := s.write c ret, sendMtx := mtx } := by
  by_cases hw : (s.calls c).written + ret < (s.calls c).sendRpcStr.length
  · refine ⟨{ s.calls c with written := (s.calls c).written + ret }, s.sendMtx, rfl, rfl, rfl,
      .inl ⟨hpc, hw, rfl⟩, ?_⟩
    simp [send, hw, setCall]
  · refine ⟨{ s.calls c with written := (s.calls c).written + ret, pc := .sent }, none, rfl, rfl,
      rfl,
      .inr ⟨rfl, le_antisymm hle (not_lt.mp hw), rfl⟩, ?_⟩
    simp [send, hw]

def piece (s : Channel) (c ret : ℕ) :
    Bytes := ((s.calls c).sendRpcStr.drop (s.calls c).written).take ret

lemma write_getElem? {fd : ℕ} (hfd : s.clientfd = some fd) (c ret k : ℕ) :
    (s.write c ret)[k]? = if k = fd then s.links[k]?.map (fun link => link.append c (s.piece c ret))
      else s.links[k]? := by
  simp only [write, hfd]
  rw [List.getElem?_modify]
  by_cases hk : k = fd
  · simp [hk, Link.append, piece]
  · simp [hk, Ne.symm hk]

lemma mem_write {fd : ℕ} (hfd : s.clientfd = some fd) {ret : ℕ} {link : Link}
    (h : link ∈ s.write c ret) :
    link ∈ s.links ∨ ∃ old, s.links[fd]? = some old ∧ link = old.append c (s.piece c ret) := by
  obtain ⟨k, hk⟩ := List.mem_iff_getElem?.mp h
  rw [write_getElem? hfd] at hk
  split_ifs at hk with hkf
  · subst hkf
    obtain ⟨old, hold, rfl⟩ := Option.map_eq_some_iff.mp hk
    exact .inr ⟨old, hold, rfl⟩
  · exact .inl (List.mem_iff_getElem?.mpr ⟨k, hk⟩)

def phase (s : Channel) (c : ℕ) : Phase := (s.calls c).pc.phase

lemma phase_update (call : Call) (hcalls : t.calls = Function.update s.calls c call) (d : ℕ) :
    t.phase d = if d = c then call.pc.phase else s.phase d := by
  rw [phase, hcalls]
  by_cases hd : d = c
  · rw [if_pos hd, hd, Function.update_self]
  · rw [if_neg hd, Function.update_of_ne hd, phase]

def Sender (s : Channel) : Prop := ∀ c, s.sendMtx = some c ↔ s.phase c = .sending

lemma Sender.unique (hi : s.Sender) {c d : ℕ} (hc : s.phase c = .sending)
    (hd : s.phase d = .sending) : d = c := by
  have hm := (hi c).mpr hc
  rw [(hi d).mpr hd] at hm
  exact Option.some.inj hm

lemma Sender.moved (hi : s.Sender) (call : Call) (hcalls : t.calls = Function.update s.calls c call)
    (hc : s.phase c ≠ .sending) (hcall : call.pc.phase ≠ .sending) (hmtx : t.sendMtx = s.sendMtx) :
    t.Sender := by
  intro d
  rw [hmtx, hi, phase_update call hcalls]
  by_cases hdc : d = c
  · rw [hdc, if_pos rfl]
    exact iff_of_false hc hcall
  · rw [if_neg hdc]

lemma Sender.step (hi : s.Sender) (hs : s.Sound) (h : s.step env a = some t) : t.Sender := by
  cases conn_step hs.called hs.locked h with
  | steady hcalls hlinks hmtx hfd =>
    intro c
    rw [hmtx, hi]
    constructor
    · intro hc
      exact ((hcalls c).kept (by rw [← phase, hc]; simp)).1.trans hc
    · intro hc
      exact ((hcalls c).late hc (by simp)).1
  | @reused c hpc hconn =>
    exact hi.moved { s.calls c with pc := .registering } rfl (by simp [phase, hpc, CallPc.phase])
      (by simp [CallPc.phase]) rfl
  | @opened c hpc hhost =>
    rw [opened_eq hhost]
    exact hi.moved { s.calls c with pc := .registering } rfl (by simp [phase, hpc, CallPc.phase])
      (by simp [CallPc.phase]) rfl
  | @locked c hpc hmtx =>
    have hnone : ∀ d, s.phase d ≠ .sending := by
      intro d hd
      simp [(hi d).mpr hd] at hmtx
    intro d
    have hm : (s.lockSend c).sendMtx = some c := rfl
    rw [hm, phase_update { s.calls c with pc := .sending, written := 0 } rfl]
    by_cases hdc : d = c
    · simp [hdc, CallPc.phase]
    · rw [if_neg hdc]
      exact iff_of_false (fun h => hdc (Option.some.inj h).symm) (hnone d)
  | @wrote c ret fd hpc hfd hret hle =>
    have hc : s.phase c = .sending := by rw [phase, hpc]; rfl
    obtain ⟨call, mtx, -, -, -, hpc', hsend⟩ := wrote_eq ret hpc hle
    rw [hsend]
    intro d
    rw [phase_update call rfl]
    rcases hpc' with ⟨hp, -, rfl⟩ | ⟨hp, -, rfl⟩
    · split_ifs with hdc
      · rw [hdc, hp]
        exact iff_of_true ((hi c).mpr hc) rfl
      · exact hi d
    · refine iff_of_false (by simp) ?_
      split_ifs with hdc
      · simp [hp, CallPc.phase]
      · exact fun hd => hdc (hi.unique hc hd)
  | @stopped c errno hpc =>
    have hm : (s.sendFail c errno).sendMtx = none := rfl
    intro d
    rw [hm, phase_update { s.calls c with pc := .undoing, error := some (.send errno) } rfl]
    refine iff_of_false (by simp) ?_
    split_ifs with hdc
    · simp [CallPc.phase]
    · exact fun hd => hdc (hi.unique (by simp [phase, hpc, CallPc.phase]) hd)

lemma sender_run {ok : Channel → Action → Prop} {as : List Action}
    (h : Run (Channel.step env) ok constructed as t) :
    t.Sender := by
  refine h.invariant_with (K := Sound) ?_ (fun _ _ hr => sound_run hr)
    (fun _ _ _ hs _ hi _ hstep => hi.step hs hstep)
  simp [Sender, constructed, phase, CallPc.phase]

end Channel

end KimRpc.Client
