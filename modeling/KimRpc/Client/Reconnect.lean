import KimRpc.Client.Orphans

/-! Calls to several hosts over one channel: what a reconnect does to the calls in
flight when the environment does nothing wrong. -/

namespace KimRpc.Client.Channel

open Library.Tables Library.Runs

variable {env : ChannelEnv} {s t : Channel} {a : Action} {c : ℕ}

/-- No peer closes a connection or sends a frame that is too short, no socket call
fails, no deadline expires and the channel is not destroyed. -/
def clean (s : Channel) : Action → Bool
  | .openConnection _ result => result = .connected
  | .sendFail _ _ => false
  | .recvFail => s.clientfd = none
  | .tick => (select s.pending (Pending.expired s.now)).entries = []
  | .destroy => false
  | _ => true

/-- `ensureConnected` closes a connection only when no call is in flight or about to register. -/
def spares (s : Channel) : Action → Bool
  | .connect c => s.clientfd = none ∨ s.Connected (s.calls c).hostData ∨
      s.pending.entries = [] ∧ ∀ d < s.started, (s.calls d).pc ≠ .registering
  | _ => true

def sparing (s : Channel) (a : Action) : Bool := s.clean a && s.spares a

structure Spared (s : Channel) : Prop where
  alive : s.destructor = .alive
  sending : ∀ c, (s.calls c).pc ≠ .undoing
  between : s.clientfd = none → s.pending = ∅ ∧ ∀ c, (s.calls c).pc ≠ .registering
  lost : s.recvThread ∈ [some .failing, some .draining, some .finished] → s.clientfd = none
  running : s.recvThread ∈ [some .top, some .reading, some .completing] → s.running = true
  taken : ∀ q c, .took q c ∈ s.log → q = .recvLoop ∧ (s.calls c).pc ∉ early ∧
    ∃ body, .arrived (s.calls c).requestId body ∈ s.log

lemma Spared.taken_old (hi : s.Spared) (hcalled : s.Called) (h : s.step env a = some t) {q : Taker}
    (hm : .took q c ∈ s.log) : q = .recvLoop ∧ (t.calls c).pc ∉ early ∧
      ∃ body, .arrived (t.calls c).requestId body ∈ t.log := by
  obtain ⟨hq, hpc, body, hb⟩ := hi.taken q c hm
  obtain ⟨hid, hpc'⟩ := moved_on hcalled h hpc
  obtain ⟨events, hlog, -⟩ := log_step h
  refine ⟨hq, hpc', body, ?_⟩
  rw [hid, hlog]
  exact List.mem_append_left _ hb

lemma Spared.frame (hi : s.Spared) (hcalled : s.Called) (h : s.step env a = some t)
    (hd : t.destructor = s.destructor) (hf : t.clientfd = s.clientfd) (hp : t.pending = s.pending)
    (hr : t.recvThread = s.recvThread ∨ t.recvThread = none) (hrun : t.running = s.running)
    (hlog : ∀ q c, .took q c ∈ t.log → .took q c ∈ s.log)
    (hc : ∀ c, (t.calls c).pc = (s.calls c).pc ∨ (t.calls c).pc ≠ .undoing ∧
      ((t.calls c).pc = .registering → s.clientfd ≠ none)) : t.Spared := by
  refine ⟨hd.trans hi.alive, ?_, ?_, ?_, ?_, fun q c hm => hi.taken_old hcalled h (hlog q c hm)⟩
  · intro c
    rcases hc c with h' | h'
    · exact h' ▸ hi.sending c
    · exact h'.1
  · intro hn
    rw [hf] at hn
    refine ⟨hp.trans (hi.between hn).1, ?_⟩
    intro c
    rcases hc c with h' | h'
    · exact h' ▸ (hi.between hn).2 c
    · exact fun hpc => h'.2 hpc hn
  · intro hm
    rcases hr with hr | hr
    · exact hf.trans (hi.lost (hr ▸ hm))
    · simp [hr] at hm
  · intro hm
    rcases hr with hr | hr
    · exact hrun.trans (hi.running (hr ▸ hm))
    · simp [hr] at hm

lemma Spared.frame_call (hi : s.Spared) (hcalled : s.Called) (h : s.step env a = some t)
    {call : Call}
    (hcalls : t.calls = Function.update s.calls c call) (hd : t.destructor = s.destructor)
    (hf : t.clientfd = s.clientfd) (hp : t.pending = s.pending)
    (hr : t.recvThread = s.recvThread ∨ t.recvThread = none) (hrun : t.running = s.running)
    (hlog : ∀ q c, .took q c ∈ t.log → .took q c ∈ s.log) (hu : call.pc ≠ .undoing)
    (hreg : call.pc = .registering → s.clientfd ≠ none) : t.Spared := by
  refine hi.frame hcalled h hd hf hp hr hrun hlog (fun d => ?_)
  rw [hcalls]
  by_cases hdc : d = c
  · subst hdc
    rw [Function.update_self]
    exact .inr ⟨hu, hreg⟩
  · exact .inl (by rw [Function.update_of_ne hdc])

lemma Spared.receiving (hi : s.Spared) (hcalled : s.Called) (h : s.step env a = some t)
    {pc : RecvPc}
    (hlive : s.recvThread ∈ [some .top, some .reading, some .completing])
    (hr : t.recvThread = some pc)
    (hpc : pc ∈ [.top, .reading, .completing]) (hd : t.destructor = s.destructor)
    (hf : t.clientfd = s.clientfd)
    (hp : ∀ id p, t.pending.lookup id = some p → s.pending.lookup id = some p)
    (hrun : s.running = true → t.running = true)
    (hcalls : t.calls = s.calls) (hlog : ∀ q c, .took q c ∈ t.log → .took q c ∈ s.log ∨
      q = .recvLoop ∧ (s.calls c).pc ∉ early ∧
      ∃ body, .arrived (s.calls c).requestId body ∈ t.log) :
    t.Spared := by
  refine ⟨hd.trans hi.alive, hcalls ▸ hi.sending, ?_, ?_, fun _ => hrun (hi.running hlive), ?_⟩
  · intro hn
    rw [hf] at hn
    obtain ⟨hempty, hreg⟩ := hi.between hn
    refine ⟨eq_empty_of_lookup (fun id => ?_), hcalls ▸ hreg⟩
    by_contra hne
    obtain ⟨p, hp'⟩ := Option.ne_none_iff_exists'.mp hne
    simpa [hempty, AList.lookup_empty] using hp id p hp'
  · intro hm
    rw [hr] at hm
    simp only [List.mem_cons, Option.some.injEq, List.not_mem_nil, or_false] at hm hpc
    rcases hm with rfl | rfl | rfl <;> simp at hpc
  · intro q c hm
    rcases hlog q c hm with hm | hm
    · exact hi.taken_old hcalled h hm
    · rwa [hcalls]

lemma Spared.ending (hi : s.Spared) (hcalled : s.Called) (h : s.step env a = some t) {pc : RecvPc}
    (hclosed : s.clientfd = none) (hr : t.recvThread = some pc)
    (hpc : pc ∈ [.failing, .draining, .finished])
    (hd : t.destructor = s.destructor) (hf : t.clientfd = s.clientfd)
    (hp : t.pending = s.pending ∨ t.pending = ∅)
    (hcalls : t.calls = s.calls) (hlog : ∀ q c, .took q c ∈ t.log → .took q c ∈ s.log) :
    t.Spared := by
  obtain ⟨hempty, hreg⟩ := hi.between hclosed
  refine ⟨hd.trans hi.alive, hcalls ▸ hi.sending, fun _ => ⟨?_, hcalls ▸ hreg⟩,
    fun _ => hf.trans hclosed, ?_,
    fun q c hm => hi.taken_old hcalled h (hlog q c hm)⟩
  · rcases hp with hp | hp
    · exact hp.trans hempty
    · exact hp
  · intro hm
    rw [hr] at hm
    simp only [List.mem_cons, Option.some.injEq, List.not_mem_nil, or_false] at hm hpc
    rcases hm with rfl | rfl | rfl <;> simp at hpc

lemma Spared.step (hi : s.Spared) (hs : s.Sound) (hk : s.Keyed) (hok : s.sparing a = true)
    (h : s.step env a = some t) : t.Spared := by
  have hcalled := hs.called
  simp only [sparing, Bool.and_eq_true] at hok
  obtain ⟨hclean, hspare⟩ := hok
  have hstep := h
  obtain ⟨he, rfl⟩ := step_eq h
  cases a with
  | start parent =>
    exact hi.frame_call hcalled hstep rfl rfl rfl rfl (.inl rfl) rfl (fun _ _ h => h) (by simp)
      (by simp)
  | prepare c inv =>
    rcases s.prepare_cases c env inv with hp | ⟨call, hpc, -, -, hp⟩ <;> rw [effect, hp] at hstep ⊢
    · exact hi.frame_call hcalled hstep rfl rfl rfl rfl (.inl rfl) rfl (fun _ _ h => h) (by simp)
        (by simp)
    · refine hi.frame_call hcalled hstep rfl rfl rfl rfl (.inl rfl) rfl (fun _ _ h => h) ?_ ?_ <;>
        rcases hpc with hpc | hpc <;> simp [hpc]
  | connect c =>
    simp only [effect, Channel.connect] at hstep ⊢
    split_ifs at hstep ⊢ with hconn
    · exact hi.frame_call hcalled hstep rfl rfl rfl rfl (.inl rfl) rfl (fun _ _ h => h) (by simp)
        (fun _ => hconn.1)
    · have hnone : s.pending = ∅ ∧ ∀ d, (s.calls d).pc ≠ .registering := by
        simp only [spares, decide_eq_true_eq] at hspare
        rcases hspare with hf | hf | ⟨hp, hr⟩
        · exact hi.between hf
        · exact absurd hf hconn
        · refine ⟨AList.ext hp, fun d => ?_⟩
          by_cases hd : d < s.started
          · exact hr d hd
          · simp [hcalled.absent d (by omega)]
      refine ⟨hi.alive, ?_, fun _ => ⟨hnone.1, ?_⟩, fun _ => rfl, hi.running,
        fun q d hm => hi.taken_old hcalled hstep hm⟩
      · exact (Function.forall_update_iff s.calls (fun _ (call : Call) => call.pc ≠ .undoing)).mpr
          ⟨by simp, fun d _ => hi.sending d⟩
      · exact (Function.forall_update_iff s.calls
          (fun _ (call : Call) => call.pc ≠ .registering)).mpr
          ⟨by simp, fun d _ => hnone.2 d⟩
  | join c =>
    simp only [effect, Channel.join] at hstep ⊢
    split_ifs at hstep ⊢
    · exact hi.frame hcalled hstep rfl rfl rfl (.inl rfl) rfl (fun _ _ h => h) (fun _ => .inl rfl)
    · exact hi.frame_call hcalled hstep rfl rfl rfl rfl (.inr rfl) rfl (fun _ _ h => h) (by simp)
        (by simp)
  | openConnection c result =>
    rcases s.openConnection_cases c result with ⟨reason, -, ho⟩ | ⟨-, ho⟩ <;>
      rw [effect, ho] at hstep ⊢
    · exact hi.frame_call hcalled hstep rfl rfl rfl rfl (.inl rfl) rfl (fun _ _ h => h) (by simp)
        (by simp)
    · refine ⟨hi.alive,
        ?_, by simp, by simp, fun _ => rfl, fun q d hm => hi.taken_old hcalled hstep hm⟩
      exact (Function.forall_update_iff s.calls (fun _ (call : Call) => call.pc ≠ .undoing)).mpr
        ⟨by simp, fun d _ => hi.sending d⟩
  | register c =>
    simp only [Enabled] at he
    refine ⟨hi.alive, ?_, fun hn => absurd he ((hi.between hn).2 c), hi.lost, hi.running, ?_⟩
    · exact (Function.forall_update_iff s.calls (fun _ (call : Call) => call.pc ≠ .undoing)).mpr
        ⟨by simp, fun d _ => hi.sending d⟩
    · intro q d hm
      refine hi.taken_old hcalled hstep ?_
      simpa [effect, Channel.register, record, goto, setCall] using hm
  | lockSend c =>
    exact hi.frame_call hcalled hstep rfl rfl rfl rfl (.inl rfl) rfl (fun _ _ h => h) (by simp)
      (by simp)
  | send c ret =>
    obtain ⟨call, hpc, -, -, mtx, hsend⟩ := s.send_cases c ret he.1
    rw [effect, hsend] at hstep ⊢
    refine hi.frame_call hcalled hstep rfl rfl rfl rfl (.inl rfl) rfl (fun _ _ h => h) ?_ ?_ <;>
      intro hc <;> simp [hc] at hpc
  | sendFail c errno => simp [clean] at hclean
  | undo c => exact absurd he (hi.sending c)
  | fail c =>
    exact hi.frame_call hcalled hstep rfl rfl rfl rfl (.inl rfl) rfl
      (fun q d hm => by simpa [effect, Channel.fail, record, goto, setCall] using hm) (by simp)
      (by simp)
  | «return» c =>
    exact hi.frame_call hcalled hstep rfl rfl rfl rfl (.inl rfl) rfl (fun _ _ h => h) (by simp)
      (by simp)
  | recvTop =>
    simp only [Enabled] at he
    have hrun := hi.running (by simp [he])
    simp only [effect, Channel.recvTop, hrun, if_true] at hstep ⊢
    exact hi.receiving hcalled hstep (by simp [he]) rfl (by simp) rfl rfl (fun _ _ h => h)
      (fun _ => rfl) rfl
      (fun _ _ h => .inl h)
  | recvTake id body =>
    cases hp : s.pending.lookup id with
    | none =>
      simp only [effect, Channel.recvTake, hp] at hstep ⊢
      exact hi.receiving hcalled hstep (by simp [he.1]) rfl (by simp) rfl rfl (fun _ _ h => h)
        (fun h => h) rfl
        (fun q d hm => .inl (by simpa [record] using hm))
    | some pend =>
      simp only [effect, Channel.recvTake, hp, take, setBatch, record] at hstep ⊢
      obtain ⟨hid, hpc⟩ := hk id pend hp
      refine hi.receiving hcalled hstep (by simp [he.1]) rfl (by simp) rfl rfl
        (fun _ _ h => (splits_erase hp).rest h) (fun h => h) rfl ?_
      intro q d hm
      simp only [List.mem_append, List.mem_singleton, List.mem_map,
        AList.singleton_entries] at hm ⊢
      rcases hm with (hm | hm) | ⟨e, rfl, hm⟩
      · exact .inl hm
      · simp at hm
      · simp only [Event.took.injEq] at hm
        obtain ⟨rfl, rfl⟩ := hm
        exact .inr ⟨rfl, hpc, body, .inl (.inr (by rw [hid]))⟩
  | recvFail =>
    simp only [clean, decide_eq_true_eq] at hclean
    exact hi.ending hcalled hstep hclean rfl (by simp) rfl rfl (.inl rfl) rfl (fun _ _ h => h)
  | recvNext =>
    exact hi.receiving hcalled hstep (by simp [he.1]) rfl (by simp) rfl rfl (fun _ _ h => h)
      (fun h => h) rfl
      (fun _ _ h => .inl h)
  | recvFailAll =>
    simp only [Enabled] at he
    have hclosed := hi.lost (by simp [he])
    have hempty := (hi.between hclosed).1
    simp only [effect, failAllPending, take, setBatch, record] at hstep ⊢
    refine hi.ending hcalled hstep hclosed rfl (by simp) rfl rfl (.inr rfl) rfl ?_
    intro q c hm
    simpa [hempty] using hm
  | recvFinish =>
    exact hi.ending hcalled hstep (hi.lost (by simp [he.1])) rfl (by simp) rfl rfl (.inl rfl) rfl
      (fun _ _ h => h)
  | tick =>
    simp only [clean, decide_eq_true_eq] at hclean
    simp only [effect, Channel.tick, hclean, if_true] at hstep ⊢
    exact hi
  | runDone w i =>
    obtain ⟨p, hp⟩ := Option.ne_none_iff_exists'.mp he.2
    simp only [effect, Channel.runDone, hp] at hstep ⊢
    exact hi.frame hcalled hstep rfl rfl rfl (.inl rfl) rfl
      (fun q d hm => by simpa [record, setBatch] using hm) (fun _ => .inl rfl)
  | free w =>
    obtain ⟨p, hp, -⟩ := he
    simp only [effect, Channel.free, Option.mem_def.mp hp] at hstep ⊢
    exact hi.frame hcalled hstep rfl rfl rfl (.inl rfl) rfl
      (fun q d hm => by simpa [record, setBatch] using hm) (fun _ => .inl rfl)
  | destroy => simp [clean] at hclean
  | joinTimer | teardown | joinRecv | destroyed => exact absurd (hi.alive.symm.trans he.1) (by simp)
  | closeAll => simp [Enabled, hi.alive] at he
  | _ =>
    exact hi.frame hcalled hstep rfl rfl rfl (.inl rfl) rfl (fun _ _ h => h) (fun _ => .inl rfl)

lemma spared_run {as : List Action}
    (h : Run (Channel.step env) (fun u a => u.sparing a = true) constructed as t) :
    t.Spared := by
  refine h.invariant_with (K := fun u => u.Sound ∧ u.Keyed) ?_
    (fun _ _ hr => ⟨sound_run hr, keyed_run hr⟩)
    (fun _ _ _ hs _ hi hok hstep => hi.step hs.1 hs.2 hok hstep)
  exact ⟨rfl, by simp [constructed], fun _ => ⟨rfl, by simp [constructed]⟩, by simp [constructed],
    by simp [constructed], by simp [constructed]⟩

/-- The call is where it was registered, or it left when the frame with its id arrived. -/
def Isolated (s : Channel) (c : ℕ) : Prop :=
  (∃ d, s.pending.lookup (s.calls c).requestId = some ⟨c, d⟩) ∨
    .took .recvLoop c ∈ s.log ∧ ∃ body, .arrived (s.calls c).requestId body ∈ s.log

/-- When no reconnect meets a call in flight, a call that was sent waits for its own
response, and `failAllPending` completes none. -/
theorem calls_isolated (env : ChannelEnv) {as : List Action} {t : Channel}
    (h : Run (Channel.step env) (fun u a => u.sparing a = true) constructed as t)
    (hlt : t.started < 2 ^ 64) :
    (∀ c, (t.calls c).pc = .sent → t.Isolated c) ∧ ∀ c, .took .failAllPending c ∉ t.log := by
  have hi := spared_run h
  obtain ⟨life, hl⟩ := (sound_run h).books hlt
  constructor
  · intro c hc
    have hst := hl.stands c
    rw [hc] at hst
    have htook : ∀ q, .took q c ∈ history c t.log → t.Isolated c := by
      intro q hq
      have hm := List.mem_of_mem_filter hq
      obtain ⟨rfl, -, hb⟩ := hi.taken q c hm
      exact .inr ⟨hm, hb⟩
    cases hlc : life c with
    | waiting d => exact .inl ⟨d, (hl.table _ ⟨c, d⟩).mpr ⟨hlc, rfl⟩⟩
    | taken w q d => exact htook q (by simp [hl.events, hlc, Life.history])
    | ran w q d f time => exact htook q (by simp [hl.events, hlc, Life.history])
    | freed q d f time => exact htook q (by simp [hl.events, hlc, Life.history])
    | _ => simp [hlc, Life.pcs] at hst
  · intro c hm
    simpa using (hi.taken _ c hm).1

/-- The second call goes to another instance of the same method. -/
def twoHostsRun : List Action :=
  sampleCall 0 "10.0.0.1:80" ++
  [.recvTop, .start none, .prepare 1 (sampleInvocation "10.0.0.2:80"), .connect 1, .recvFail,
    .recvFailAll,
    .runDone .recv 1]

theorem not_isolated_sample :
    ∃ t, Run (Channel.step sampleEnv) (fun u a => u.clean a = true) constructed twoHostsRun t ∧
    (t.calls 0).pc = .sent ∧ ¬ t.Isolated 0 ∧ .took .failAllPending 0 ∈ t.log ∧
    .done .failAllPending 0 (some .connectionClosed) 0 ∈ t.log := by
  obtain ⟨t, ht, hd⟩ : ∃ t, exec (Channel.step sampleEnv) constructed twoHostsRun = some t ∧
      decide ((t.calls 0).pc = .sent ∧ t.pending.lookup (t.calls 0).requestId = none ∧
        .took .recvLoop 0 ∉ t.log ∧ .took .failAllPending 0 ∈ t.log ∧
        .done .failAllPending 0 (some .connectionClosed) 0 ∈ t.log) = true :=
          exec_any (by decide +kernel)
  obtain ⟨hc, hp, hr, hf, hdone⟩ := of_decide_eq_true hd
  refine ⟨t, .of_exec ht (by decide +kernel), hc, ?_, hf, hdone⟩
  rintro (⟨d, hw⟩ | ⟨hw, -⟩)
  · simp [hp] at hw
  · exact hr hw

def sparingRun : List Action :=
  sampleCall 0 "10.0.0.1:80" ++
  [.start none, .prepare 1 (sampleInvocation "10.0.0.1:80"), .connect 1, .register 1, .lockSend 1,
    .send 1 12,
    .recvTop, .recv [8, 0, 0, 0], .recv [2, 0, 0, 0, 0, 0, 0, 0], .recvTake 2 [], .runDone .recv 2,
    .free .recv,
    .recvNext, .recvTop, .recv [8, 0, 0, 0], .recv [1, 0, 0, 0, 0, 0, 0, 0], .recvTake 1 [],
    .runDone .recv 1,
    .free .recv, .recvNext, .start none, .prepare 2 (sampleInvocation "10.0.0.2:80"), .connect 2,
    .recvTop,
    .recvFail, .recvFailAll, .recvFinish, .join 2, .openConnection 2 .connected, .register 2,
    .lockSend 2, .send 2 12]

theorem calls_isolated_sample : ∃ t, exec (Channel.step sampleEnv) constructed sparingRun = some t ∧
    t.Isolated 1 ∧ t.Isolated 2 ∧ .took .failAllPending 0 ∉ t.log := by
  obtain ⟨t, ht, hd⟩ : ∃ t, exec (Channel.step sampleEnv) constructed sparingRun = some t ∧
      decide (t.started = 3 ∧ (t.calls 1).pc = .sent ∧ (t.calls 2).pc = .sent) = true :=
        exec_any (by decide +kernel)
  obtain ⟨hn, h1, h2⟩ := of_decide_eq_true hd
  obtain ⟨hiso, hnone⟩ := calls_isolated sampleEnv (.of_exec ht (by decide +kernel)) (by omega)
  exact ⟨t, ht, hiso 1 h1, hiso 2 h2, hnone 0⟩

end KimRpc.Client.Channel
