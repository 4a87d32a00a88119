import KimRpc.Network.Transport

/-! Calls across the network. What a call that succeeds reports is what the service may
answer to the request of that very call, and each request is dispatched at most once. -/

namespace KimRpc.Network

open Client Server Library.FramePieces Library.Runs Wire

section parts

variable {env : ChannelEnv} {s t : Channel} {a : Client.Action} {w : ℕ → Bytes}

lemma links_grow (hs : s.Sound) (h : s.step env a = some t) (k : ℕ) :
    ((s.links[k]?).map (fun link => bytes link.wire)).getD [] <+:
    ((t.links[k]?).map (fun link => bytes link.wire)).getD [] := by
  cases Channel.conn_step hs.called hs.locked h with
  | steady _ hlinks => rw [hlinks]
  | reused => exact List.prefix_rfl
  | @opened c hpc hhost =>
    rw [Channel.opened_eq hhost]
    show _ <+:
      (((s.links ++ [⟨(s.calls c).hostData, []⟩])[k]?).map (fun link => bytes link.wire)).getD []
    rw [List.getElem?_append]
    split_ifs with hlt
    · exact List.prefix_rfl
    · rw [List.getElem?_eq_none (not_lt.mp hlt)]
      exact List.nil_prefix
  | locked => exact List.prefix_rfl
  | @wrote c ret fd hpc hfd hret hle =>
    obtain ⟨call, mtx, -, -, -, -, hsend⟩ := Channel.wrote_eq ret hpc hle
    rw [hsend]
    show _ <+: (((s.write c ret)[k]?).map (fun link => bytes link.wire)).getD []
    rw [Channel.write_getElem? hfd]
    split_ifs
    · cases s.links[k]? with
      | none => exact List.prefix_rfl
      | some link =>
        simp only [Option.map_some, Option.getD_some, Link.append, bytes_append]
        exact List.prefix_append _ _
    · exact List.prefix_rfl
  | stopped => exact List.prefix_rfl

lemma got_step (h : Channel.step env s a = some t) (fd : ℕ) :
    Channel.noteGot s a t w fd = w fd ∨ ∃ piece, a.piece = some piece ∧ s.clientfd = some fd ∧
      Channel.noteGot s a t w fd = w fd ++ piece := by
  cases a with
  | recv piece =>
    simp only [Channel.noteGot, Client.Action.piece]
    cases hfd : s.clientfd with
    | none => exact .inl rfl
    | some fd' =>
      simp only [Function.update_apply]
      split_ifs with heq
      · exact .inr ⟨piece, rfl, by rw [heq], by rw [heq]⟩
      · exact .inl rfl
  | _ => exact .inl rfl

end parts

namespace System

variable {ι : Type} [DecidableEq ι] {service : Request → Bytes → Prop} {dep : Deployment ι service}
    {n n' : System dep}

structure Piped (n : System dep) : Prop where
  paired : ∀ l q, n.socketOf l = some q ↔ n.linkOf q = some l
  old : ∀ host k l, n.linkOf (host, k) = some l → k < n.accepts host
  upstream : ∀ host k l, n.linkOf (host, k) = some l → n.received host k <+: n.written l
  downstream : ∀ i fd, n.got i fd = [] ∨ ∃ q, n.socketOf (i, fd) = some q ∧
      n.got i fd <+: n.sent q.1 q.2

lemma step_eq {act : Act dep} (h : n.step act = some n') :
    n.Enabled act ∧ n.effect act = some n' := by
  simp only [step, Option.ite_none_right_eq_some] at h
  exact h

lemma Piped.call {i : ι} {a : Client.Action} (h : n.Piped) (hs : (n.channel i).Sound)
    (hen : n.Enabled (.call i a))
    (heff : n.effect (.call i a) = some n') : n'.Piped := by
  simp only [effect, Option.map_eq_some_iff] at heff
  obtain ⟨c, hc, rfl⟩ := heff
  obtain ⟨hstep, hnote⟩ := noted_cases hc
  have hchannel : ∀ j, j ≠ i → Function.update n.channels i c j = n.channels j :=
    fun j hj => Function.update_of_ne hj _ _
  refine ⟨h.paired, h.old, fun host k l hl => (h.upstream host k l hl).trans ?_, fun j fd => ?_⟩
  · simp only [written, channel]
    by_cases hi : l.1 = i
    · rw [hi, Function.update_self]
      exact links_grow hs hstep l.2
    · rw [hchannel _ hi]
  · simp only [got]
    by_cases hj : j = i
    · subst hj
      rw [Function.update_self, hnote]
      rcases got_step hstep fd with hsame | ⟨piece, hpiece, hfd, hgrown⟩
      · rw [hsame]
        exact h.downstream j fd
      · obtain ⟨q, hq, hpre⟩ := hen piece hpiece fd hfd
        exact .inr ⟨q, hq, by rw [hgrown]; exact hpre⟩
    · rw [hchannel _ hj]
      exact h.downstream j fd

lemma Piped.attach (h : n.Piped) (host : String) (a : (dep.server host).Action)
    (peer : Option (ι × ℕ))
    (hnew : (dep.server host).accepting a = true →
      ∀ l ∈ peer, n.socketOf l = none ∧ n.received host (n.accepts host) = []) :
    (∀ l q, (n.attach host a peer).socketOf l = some q ↔ (n.attach host a peer).linkOf q = some l) ∧
    (∀ host' k l, (n.attach host a peer).linkOf (host', k) = some l →
      k < n.accepts host' + (if host' = host then ((dep.server host).accepting a).toNat else 0) ∧
        n.received host' k <+: n.written l) ∧
    ∀ l q, n.socketOf l = some q → (n.attach host a peer).socketOf l = some q := by
  unfold System.attach
  split
  · rename_i l haccepts
    obtain ⟨hfree, hempty⟩ := hnew haccepts l rfl
    have hunused : n.linkOf (host, n.accepts host) = none := by
      rw [Option.eq_none_iff_forall_ne_some]
      intro l' hl'
      exact absurd (h.old _ _ _ hl') (lt_irrefl _)
    refine ⟨fun l' q => ?_, fun host' k l' hl' => ?_, fun l' q hq => ?_⟩
    · simp only [Function.update_apply]
      split_ifs with hl hq hq
      · simp [hl, hq]
      · refine iff_of_false (fun heq => hq (Option.some.inj heq).symm) (fun heq => ?_)
        rw [← h.paired, hl, hfree] at heq
        cases heq
      · refine iff_of_false (fun heq => ?_) (fun heq => hl (Option.some.inj heq).symm)
        rw [h.paired, hq, hunused] at heq
        cases heq
      · exact h.paired l' q
    · simp only [Function.update_apply, Prod.mk.injEq] at hl'
      split_ifs at hl' with heq
      · cases Option.some.inj hl'
        obtain ⟨rfl, rfl⟩ := heq
        rw [if_pos rfl, haccepts, hempty]
        exact ⟨Nat.lt_succ_self _, List.nil_prefix⟩
      · exact ⟨(h.old host' k l' hl').trans_le (Nat.le_add_right _ _), h.upstream host' k l' hl'⟩
    · simp only [Function.update_apply]
      split_ifs with hl
      · rw [hl, hfree] at hq
        cases hq
      · exact hq
  · refine ⟨h.paired, fun host' k l hl' => ?_, fun _ _ hq => hq⟩
    exact ⟨(h.old host' k l hl').trans_le (Nat.le_add_right _ _), h.upstream host' k l hl'⟩

lemma attach_same (n : System dep) (host : String) (a : (dep.server host).Action)
    (peer : Option (ι × ℕ)) :
    (n.attach host a peer).channels = n.channels ∧
      ((dep.server host).accepting a = false → n.attach host a peer = n) := by
  unfold System.attach
  split
  · rename_i l haccepts
    exact ⟨rfl, fun hnot => by simp [haccepts] at hnot⟩
  · exact ⟨rfl, fun _ => rfl⟩

lemma Piped.serve {host : String} {a : (dep.server host).Action} {peer : Option (ι × ℕ)}
    {as : List (dep.server host).Action}
    (h : n.Piped)
    (hrun : Run (dep.server host).step (dep.server host).ok (dep.server host).start as
      (n.servers host))
    (hen : n.Enabled (.serve host a peer)) (heff : n.effect (.serve host a peer) = some n') :
    n'.Piped := by
  simp only [effect, Option.map_eq_some_iff] at heff
  obtain ⟨x, hx, rfl⟩ := heff
  obtain ⟨harrives, haccepts⟩ := hen
  obtain ⟨hchannels, hsame⟩ := attach_same n host a peer
  obtain ⟨hpaired, hlinks, hkept⟩ := h.attach host a peer
    (fun ha l hl => ⟨(haccepts ha l hl).1, (dep.server host).unborn hrun _ le_rfl⟩)
  have hwritten :
      ∀ l, ({ n.attach host a peer with
        servers := Function.update n.servers host x } : System dep).written l =
      n.written l := by
    intro l
    simp only [written, channel, hchannels]
  refine ⟨hpaired, fun host' k l hl => ?_, fun host' k l hl => ?_, fun i fd => ?_⟩
  · have hold := (hlinks host' k l hl).1
    simp only [accepts] at hold ⊢
    by_cases hhost : host' = host
    · subst hhost
      rw [Function.update_self, (dep.server host').accepts_step hrun hx]
      simpa using hold
    · rw [Function.update_of_ne hhost]
      simpa [hhost] using hold
  · rw [hwritten]
    have hold := (hlinks host' k l hl).2
    simp only [received] at hold ⊢
    by_cases hhost : host' = host
    · subst hhost
      rw [Function.update_self]
      rcases (dep.server host').received_step hrun hx k with heq | ⟨data, hdata, hgrown⟩
      · rw [heq]
        exact hold
      · have hnot : (dep.server host').accepting a = false := by
          cases ha : (dep.server host').accepting a with
          | false => rfl
          | true =>
            rw [(dep.server host').exclusive ha] at hdata
            cases hdata
        have hl' : n.linkOf (host', k) = some l := by
          rw [← hsame hnot]
          exact hl
        rw [hgrown]
        exact harrives (k, data) hdata l hl'
    · rw [Function.update_of_ne hhost]
      exact hold
  · have hgot :
        ({ n.attach host a peer with servers := Function.update n.servers host x } : System dep).got
          i fd = n.got i fd := by
      simp only [got, hchannels]
    rw [hgot]
    rcases h.downstream i fd with hnone | ⟨q, hq, hpre⟩
    · exact .inl hnone
    · refine .inr ⟨q, hkept _ _ hq, hpre.trans ?_⟩
      obtain ⟨host', k⟩ := q
      simp only [sent]
      by_cases hhost : host' = host
      · subst hhost
        rw [Function.update_self]
        exact (dep.server host').sent_step hx k
      · rw [Function.update_of_ne hhost]

section run

variable {acts : List (Act dep)}

lemma channel_run (h : Run step Proper (start dep) acts n) (i : ι) :
    ∃ as, Run (listen (dep.env i)) (fun c a => c.1.keepsFrames a = true ∧
      c.1.fits (dep.env i) a = true)
      (Channel.constructed, fun _ => []) as (n.channels i) := by
  refine h.project (fun n => n.channels i) (fun u act v hok hstep => ?_)
  obtain ⟨-, heff⟩ := step_eq hstep
  cases act with
  | call j a =>
    simp only [effect, Option.map_eq_some_iff] at heff
    obtain ⟨c, hc, rfl⟩ := heff
    by_cases hj : i = j
    · subst hj
      exact .inr ⟨a, hok, by simpa using hc⟩
    · exact .inl (Function.update_of_ne hj _ _)
  | serve host a peer =>
    simp only [effect, Option.map_eq_some_iff] at heff
    obtain ⟨x, -, rfl⟩ := heff
    exact .inl (congrFun (attach_same _ host a peer).1 i)

lemma server_run (h : Run step Proper (start dep) acts n) (host : String) :
    ∃ as, Run (dep.server host).step (dep.server host).ok (dep.server host).start as
      (n.servers host) := by
  refine h.project (fun n => n.servers host) (fun u act v hok hstep => ?_)
  obtain ⟨-, heff⟩ := step_eq hstep
  cases act with
  | call i a =>
    simp only [effect, Option.map_eq_some_iff] at heff
    obtain ⟨c, -, rfl⟩ := heff
    exact .inl rfl
  | serve host' a peer =>
    simp only [effect, Option.map_eq_some_iff] at heff
    obtain ⟨x, hx, rfl⟩ := heff
    by_cases hhost : host = host'
    · subst hhost
      exact .inr ⟨a, hok, by simpa using hx⟩
    · exact .inl (Function.update_of_ne hhost _ _)

lemma channel_of_run (h : Run step Proper (start dep) acts n) (i : ι) :
    ∃ as, Run (Channel.step (dep.env i)) (fun c a => c.keepsFrames a = true ∧
      c.fits (dep.env i) a = true)
      Channel.constructed as (n.channel i) := by
  obtain ⟨as, hr⟩ := channel_run h i
  exact ⟨as, Run.unnoted (fun (c : Channel) a => c.keepsFrames a = true ∧
    c.fits (dep.env i) a = true) hr⟩

lemma heard_run (h : Run step Proper (start dep) acts n) (i : ι) :
    (n.channel i).Heard (n.got i) := by
  obtain ⟨as, hr⟩ := channel_run h i
  refine (hr.invariant_with (I := fun c => c.1.Heard c.2) (K := fun _ => True) ?_
    (fun _ _ _ => trivial) ?_)
  · exact ⟨by simp [Channel.constructed],
      fun _ _ => rfl, by simp [Channel.constructed], by simp [Channel.constructed], nofun⟩
  · intro c a c' _ _ hinv _ hstep
    obtain ⟨hstep, hnote⟩ := noted_cases hstep
    rw [hnote]
    exact hinv.step hstep

lemma piped_run (h : Run step Proper (start dep) acts n) : n.Piped := by
  refine h.invariant_with (K := fun n => (∀ i, (n.channel i).Sound) ∧ ∀ host, ∃ as,
    Run (dep.server host).step (dep.server host).ok (dep.server host).start as (n.servers host))
    ?_ (fun bs u hr => ⟨fun i => ?_, server_run hr⟩) ?_
  · exact ⟨by simp [start], by simp [start], by simp [start], fun _ _ => .inl rfl⟩
  · obtain ⟨as, hrun⟩ := channel_of_run hr i
    exact Channel.sound_run hrun
  · rintro u act v ⟨hchannels, hservers⟩ - hinv - hstep
    obtain ⟨hen, heff⟩ := step_eq hstep
    cases act with
    | call i a => exact hinv.call (hchannels i) hen heff
    | serve host a peer =>
      obtain ⟨as, hrun⟩ := hservers host
      exact hinv.serve hrun hen heff

lemma requests_run (h : Run step Proper (start dep) acts n) {host : String} {k : ℕ} {l : ι × ℕ}
    (hl : n.linkOf (host, k) = some l) {order : ℕ → List ℕ}
    (hordered : (n.channel l.1).Ordered order) :
    ∃ request : ℕ → Request,
      (∀ c ∈ order l.2, Channel.Asks (dep.env l.1) (n.channel l.1) c (request c)) ∧
      (n.requests host k).Sublist ((order l.2).map request) := by
  obtain ⟨i, fd⟩ := l
  obtain ⟨as, hchannel⟩ := channel_of_run h i
  have hasked := (Channel.asked_run (hchannel.weaken (fun _ _ hok => hok.2))).1
  have hrequest : ∀ c ∈ order fd, ∃ r, Channel.Asks (dep.env i) (n.channel i) c r ∧
      Channel.Fits dep.codec r := by
    intro c hc
    exact (hasked.asks c).resolve_left (hordered.begun fd c hc).1
  have : Inhabited Request := ⟨⟨[], [], 0, []⟩⟩
  choose! request hrequest using hrequest
  refine ⟨request, fun c hc => (hrequest c hc).1, ?_⟩
  obtain ⟨bs, hserver⟩ := server_run h host
  have hwritten : n.written (i, fd) <+: (order fd).flatMap (n.channel i).frame := by
    unfold written
    cases hlink : (n.channel i).links[fd]? with
    | none => exact List.nil_prefix
    | some link => exact hordered.stream fd link hlink
  have hstream : n.received host k <+:
      ((order fd).map (fun c => (request c, (n.channel i).frame c))).flatMap Prod.snd := by
    rw [List.flatMap_map]
    exact ((piped_run h).upstream host k (i, fd) hl).trans hwritten
  have hreads := (dep.server host).reads hserver k _ ?_ hstream
  · rw [List.map_map] at hreads
    exact hreads
  · intro x hx
    obtain ⟨c, hc, rfl⟩ := List.mem_map.mp hx
    exact ⟨(hrequest c hc).1.1, (hrequest c hc).2⟩

end run

section results

variable {acts : List (Act dep)}

/-- A call that succeeds was answered: its own request was dispatched by the server of its
connection, and what it reports is what the service may answer to that request. -/
theorem calls_answered (dep : Deployment ι service) {n : System dep} {acts : List (Act dep)}
    (h : Run step Proper (start dep) acts n) {i : ι} {c time : ℕ} {q : Taker}
    (hstarted : (n.channel i).started < 2 ^ 64)
    (hdone : Event.done q c none time ∈ (n.channel i).log) :
    ∃ r body host k fd, n.linkOf (host, k) = some (i, fd) ∧
    Channel.Asks (dep.env i) (n.channel i) c r ∧
      r ∈ n.requests host k ∧ service r body ∧ dep.parses i c body = true := by
  obtain ⟨as, hchannel⟩ := channel_of_run h i
  obtain ⟨⟨-, hframe⟩, body, harrived, hparses⟩ :=
    (Channel.fulfilled_run (hchannel.weaken (fun _ _ hok => hok.2))).dones q c time hdone
  obtain ⟨fd, frames, hsized, hmem, hgot⟩ := (heard_run h i).taken _ harrived
  have hpiped := piped_run h
  rcases hpiped.downstream i fd with hnone | ⟨⟨host, k⟩, hq, hsent⟩
  · rw [hnone, List.prefix_nil] at hgot
    have hpos : 0 < (flat frames).length := by
      have hone :=
        (List.sublist_flatten_of_mem
          (List.mem_map_of_mem (f := fun f => responseFrame f.1 f.2) hmem)).length_le
      rw [responseFrame_length] at hone
      rw [flat, List.flatMap_def]
      omega
    rw [hgot] at hpos
    cases hpos
  have hl : n.linkOf (host, k) = some (i, fd) := (hpiped.paired _ _).mp hq
  -- the response answers a request that came in on the same connection
  obtain ⟨bs, hserver⟩ := server_run h host
  obtain ⟨replies, -, hstream, hreplies⟩ := (dep.server host).serves hserver k
  have hflat : replies.flatMap (fun r => responseFrame r.2.1.requestId r.2.2) =
      flat (replies.map (fun r => (r.2.1.requestId, r.2.2))) := by
    rw [flat, List.flatMap_map]
  rw [hflat] at hstream
  have hsized' : Sized (replies.map (fun r => (r.2.1.requestId, r.2.2))) := by
    intro f hf
    obtain ⟨r, hr, rfl⟩ := List.mem_map.mp hf
    exact (hreplies r hr).2.2
  have hframes := frames_prefix hsized hsized' (hgot.trans (hsent.trans hstream))
  obtain ⟨⟨j, r, body'⟩, hr, heq⟩ := List.mem_map.mp (hframes.subset hmem)
  obtain ⟨hid, rfl⟩ := Prod.mk.inj heq
  obtain ⟨hget, hservice, -⟩ := hreplies _ hr
  -- and that request is of the call with its id, which is this one
  obtain ⟨order, hordered⟩ := Channel.ordered_run (hchannel.weaken (fun _ _ hok => hok.1))
  obtain ⟨request, hasks, hrequests⟩ := requests_run h hl hordered
  have hdispatched : r ∈ n.requests host k := List.mem_of_getElem? hget
  obtain ⟨d, hd, rfl⟩ := List.mem_map.mp (hrequests.subset hdispatched)
  obtain ⟨ids, hids⟩ := (Channel.asked_run (hchannel.weaken (fun _ _ hok => hok.2))).2
  have hcd : d = c :=
    hids.distinct hstarted (hordered.begun fd d hd).1 hframe ((hasks d hd).2.symm.trans hid)
  exact ⟨request d, body', host, k, fd, hl, hcd ▸ hasks d hd, hdispatched, hservice, hparses⟩

def sampleDeployment : Deployment Unit Reactor.sampleService where
  codec := protoCodec
  parses _ _ _ := true
  server host :=
    if host = "10.0.0.1:80" then uringServer _ sampleServices _ else muduoServer _ sampleServices _

def callActs (as : List Client.Action) : List (Act sampleDeployment) := as.map (.call ())

def uringActs (fd : ℕ) (as : List Reactor.Action) : List (Act sampleDeployment) :=
  as.map (fun a => .serve "10.0.0.1:80" a (some ((), fd)))

def muduoActs (fd : ℕ) (as : List RpcProvider.Action) : List (Act sampleDeployment) :=
  as.map (fun a => .serve "10.0.0.2:80" a (some ((), fd)))

def brokenRun (ids : List UInt64) : List Client.Action :=
  [.recvTop, .recvFail, .recvFailAll] ++ ids.flatMap (fun id => [.runDone .recv id, .free .recv]) ++
  [.recvFinish]

def answerRun (id : UInt8) : List Client.Action :=
  [.recvTop, .recv [10, 0, 0, 0], .recv [id, 0, 0, 0, 0, 0, 0, 0], .recv [8, id],
    .recvTake id.toUInt64 [8, id],
    .runDone .recv id.toUInt64, .free .recv, .recvNext]

def requestFrame (id : UInt8) : Bytes := [8, 0, 0, 0, 10, 1, 85, 18, 1, 76, 32, id]

/-- The io_uring server answers the first call in two pieces. The connection breaks, and the
muduo server answers the second one. -/
def answeredActs : List (Act sampleDeployment) :=
  callActs (Channel.sampleCall 0 "10.0.0.1:80") ++ uringActs 0 Reactor.answeredRun ++
    callActs (answerRun 1 ++ brokenRun [] ++ Channel.sampleCall 1 "10.0.0.2:80") ++
    muduoActs 1 [.connected, .message 0 ((requestFrame 2).take 5), .turn 0,
      .message 0 ((requestFrame 2).drop 5), .turn 0,
      .turn 0, .done 0 (some [8, 2]), .write 0 0] ++
    callActs (answerRun 2)

theorem calls_answered_sample : ∃ n, exec step (start sampleDeployment) answeredActs = some n ∧
    ∀ c < 2, ∃ r body host k fd, n.linkOf (host, k) = some ((), fd) ∧
      Channel.Asks (sampleDeployment.env ()) (n.channel ()) c r ∧ r ∈ n.requests host k ∧
      Reactor.sampleService r body := by
  obtain ⟨n, hn, hd⟩ : ∃ n, exec step (start sampleDeployment) answeredActs = some n ∧
      decide ((n.channel ()).started = 2 ∧ Event.done .recvLoop 0 none 0 ∈ (n.channel ()).log ∧
        Event.done .recvLoop 1 none 0 ∈ (n.channel ()).log) = true :=
    exec_any (by decide +kernel)
  obtain ⟨hstarted, hfirst, hsecond⟩ := of_decide_eq_true hd
  have hrun : Run step Proper (start sampleDeployment) answeredActs n :=
    .of_exec hn (by decide +kernel)
  refine ⟨n, hn, fun c hc => ?_⟩
  have hdone : Event.done .recvLoop c none 0 ∈ (n.channel ()).log := by
    interval_cases c
    · exact hfirst
    · exact hsecond
  obtain ⟨r, body, host, k, fd, hl, hasks, hr, hservice, -⟩ :=
    calls_answered sampleDeployment hrun (by omega) hdone
  exact ⟨r, body, host, k, fd, hl, hasks, hr, hservice⟩

/-- However the connections break and whoever connects again, no request of a channel is
dispatched twice, by the same server or by another. -/
theorem dispatched_once (dep : Deployment ι service) {n : System dep} {acts : List (Act dep)}
    (h : Run step Proper (start dep) acts n) {i : ι} (hstarted : (n.channel i).started < 2 ^ 64)
    {host host' : String} {k k' fd fd' j j' : ℕ} {r r' : Request}
    (hl : n.linkOf (host, k) = some (i, fd)) (hl' : n.linkOf (host', k') = some (i, fd'))
    (hr : (n.requests host k)[j]? = some r) (hr' : (n.requests host' k')[j']? = some r')
    (hid : r.requestId = r'.requestId) : host = host' ∧ k = k' ∧ j = j' := by
  obtain ⟨as, hchannel⟩ := channel_of_run h i
  obtain ⟨order, hordered⟩ := Channel.ordered_run (hchannel.weaken (fun _ _ hok => hok.1))
  obtain ⟨ids, hids⟩ := (Channel.asked_run (hchannel.weaken (fun _ _ hok => hok.2))).2
  have hcall : ∀ {host : String} {k fd : ℕ} {r : Request}, n.linkOf (host, k) = some (i, fd) →
      r ∈ n.requests host k →
      ∃ c ∈ order fd, (n.channel i).frame c ≠ [] ∧
      ((n.channel i).calls c).requestId = r.requestId := by
    intro host k fd r hl hr
    obtain ⟨request, hasks, hrequests⟩ := requests_run h hl hordered
    obtain ⟨c, hc, rfl⟩ := List.mem_map.mp (hrequests.subset hr)
    exact ⟨c, hc, (hordered.begun fd c hc).1, (hasks c hc).2.symm⟩
  -- both requests are of one call, which wrote to one connection
  obtain ⟨c, hc, hframe, hcid⟩ := hcall hl (List.mem_of_getElem? hr)
  obtain ⟨c', hc', hframe', hcid'⟩ := hcall hl' (List.mem_of_getElem? hr')
  have hcc : c = c' := hids.distinct hstarted hframe hframe' (by rw [hcid, hcid', hid])
  subst hcc
  have hfd : fd = fd' := hordered.sole fd fd' c hc hc'
  subst hfd
  have hq := ((piped_run h).paired (i, fd) (host, k)).mpr hl
  rw [((piped_run h).paired (i, fd) (host', k')).mpr hl'] at hq
  cases Option.some.inj hq
  -- and there the ids of the requests are distinct
  obtain ⟨request, hasks, hrequests⟩ := requests_run h hl hordered
  have hnodup : ((n.requests host k).map Request.requestId).Nodup := by
    refine (hrequests.map _).nodup ?_
    rw [List.map_map]
    refine List.Nodup.map_on (fun d hd d' hd' heq => ?_) (hordered.nodup fd)
    refine hids.distinct hstarted (hordered.begun fd d hd).1 (hordered.begun fd d' hd').1 ?_
    exact (hasks d hd).2.symm.trans (heq.trans (hasks d' hd').2)
  have hj : j = j' := by
    have hlt := (List.getElem?_eq_some_iff.mp hr).1
    refine (List.getElem?_inj (by simpa using hlt) hnodup).mp ?_
    rw [List.getElem?_map, List.getElem?_map, hr, hr', Option.map_some, Option.map_some, hid]
  exact ⟨rfl, rfl, hj⟩

/-- Two calls on one connection. It breaks before they are answered, the third call goes to the
other server, and the fourth opens a second connection to the first one. -/
def brokenActs : List (Act sampleDeployment) :=
  callActs (Channel.sampleCall 0 "10.0.0.1:80" ++
    [.start none, .prepare 1 (Channel.sampleInvocation "10.0.0.1:80"),
      .connect 1, .register 1, .lockSend 1, .send 1 12]) ++
    uringActs 0 (Reactor.acceptRun ++
      [.enter 2, .recvDone 1 (requestFrame 1 ++ requestFrame 2), .wake, .handle, .loop]) ++
    callActs (brokenRun [1, 2] ++ Channel.sampleCall 2 "10.0.0.2:80") ++
    muduoActs 1 [.connected, .message 0 (requestFrame 3), .turn 0, .turn 0] ++
    callActs (brokenRun [3] ++ Channel.sampleCall 3 "10.0.0.1:80") ++
    uringActs 2 [.enter 1, .acceptDone 1 6, .wake, .handle, .loop, .enter 2,
      .recvDone 2 (requestFrame 4), .wake, .handle]

theorem dispatched_once_sample : ∃ n, exec step (start sampleDeployment) brokenActs = some n ∧
    (n.requests "10.0.0.1:80" 0).length = 2 ∧ (n.requests "10.0.0.1:80" 1).length = 1 ∧
      (n.requests "10.0.0.2:80" 0).length = 1 ∧
      (∀ r ∈ n.requests "10.0.0.1:80" 0, ∀ r' ∈ n.requests "10.0.0.1:80" 1,
        r.requestId ≠ r'.requestId) ∧
      ∀ r ∈ n.requests "10.0.0.1:80" 0, ∀ r' ∈ n.requests "10.0.0.2:80" 0,
      r.requestId ≠ r'.requestId := by
  obtain ⟨n, hn, hd⟩ : ∃ n, exec step (start sampleDeployment) brokenActs = some n ∧
      decide ((n.channel ()).started = 4 ∧ (n.linkOf ("10.0.0.1:80", 0) = some ((), 0) ∧
        n.linkOf ("10.0.0.1:80", 1) = some ((), 2) ∧ n.linkOf ("10.0.0.2:80", 0) = some ((), 1)) ∧
        (n.requests "10.0.0.1:80" 0).length = 2 ∧ (n.requests "10.0.0.1:80" 1).length = 1 ∧
        (n.requests "10.0.0.2:80" 0).length = 1) = true := exec_any (by decide +kernel)
  obtain ⟨hstarted, ⟨hfirst, hsecond, hother⟩, htwo, hone, hone'⟩ := of_decide_eq_true hd
  have hrun : Run step Proper (start sampleDeployment) brokenActs n :=
    .of_exec hn (by decide +kernel)
  refine ⟨n, hn, htwo, hone, hone', fun r hr r' hr' hid => ?_, fun r hr r' hr' hid => ?_⟩
  · obtain ⟨j, hj⟩ := List.getElem?_of_mem hr
    obtain ⟨j', hj'⟩ := List.getElem?_of_mem hr'
    exact absurd (dispatched_once sampleDeployment hrun (by omega) hfirst hsecond hj hj' hid).2.1
      (by decide)
  · obtain ⟨j, hj⟩ := List.getElem?_of_mem hr
    obtain ⟨j', hj'⟩ := List.getElem?_of_mem hr'
    exact absurd (dispatched_once sampleDeployment hrun (by omega) hfirst hother hj hj' hid).1
      (by decide)

end results

end System

end KimRpc.Network
