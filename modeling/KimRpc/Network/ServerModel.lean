import KimRpc.Client.Outcomes
import KimRpc.Client.WireOrder
import KimRpc.Server.RpcProvider

/-! A server as the other end of a connection sees it, and the two servers as such. -/

namespace KimRpc.Network

open Client Server Library.FramePieces Library.Runs Library.StreamDecoding Wire

def Carries (codec : HeaderCodec) (r : Request) (frame : Bytes) : Prop :=
  sendRpcStr codec r = some frame ∧ Channel.Fits codec r

def Sendable (service : Request → Bytes → Prop) (r : Request) (body : Bytes) : Prop :=
  service r body ∧ body.length + 8 < 2 ^ 32

instance (service : Request → Bytes → Prop) [∀ r body, Decidable (service r body)] (r : Request)
    (body : Bytes) : Decidable (Sendable service r body) :=
  inferInstanceAs (Decidable (_ ∧ _))

/-- A server that accepts connections and numbers them. It dispatches only requests whose frames
come in, each once and in their order, and sends nothing but responses to them. -/
structure ServerModel (codec : HeaderCodec) (service : Request → Bytes → Prop) where
  State : Type
  Action : Type
  start : State
  step : State → Action → Option State
  ok : State → Action → Prop
  decideOk : ∀ s a, Decidable (ok s a)
  accepts : State → ℕ
  received : State → ℕ → Bytes
  requests : State → ℕ → List Request
  sent : State → ℕ → Bytes
  accepting : Action → Bool
  arrival : State → Action → Option (ℕ × Bytes)
  exclusive : ∀ {s a}, accepting a = true → arrival s a = none
  accepts_step : ∀ {as s a t}, Run step ok start as s → step s a = some t →
      accepts t = accepts s + (accepting a).toNat
  received_step : ∀ {as s a t}, Run step ok start as s → step s a = some t →
      ∀ k, received t k = received s k ∨
    ∃ data, arrival s a = some (k, data) ∧ received t k = received s k ++ data
  sent_step : ∀ {s a t}, step s a = some t → ∀ k, sent s k <+: sent t k
  unborn : ∀ {as s}, Run step ok start as s → ∀ k, accepts s ≤ k → received s k = []
  serves : ∀ {as s}, Run step ok start as s →
      ∀ k, Serves (Sendable service) (requests s k) (sent s k)
  reads : ∀ {as s}, Run step ok start as s →
      ∀ k (calls : List (Request × Bytes)), (∀ c ∈ calls, Carries codec c.1 c.2) →
    received s k <+: calls.flatMap Prod.snd → (requests s k).Sublist (calls.map Prod.fst)

attribute [instance] ServerModel.decideOk

section frames

variable {codec : HeaderCodec} {D : Decoding} {r : Request} {frame : Bytes}

lemma uring_next_frame (hD : D.parseHeader = codec.parseFromString) (h : Carries codec r frame)
    (rest : Bytes) :
    D.uringDecoder.next (frame ++ rest) = .emit [r] rest ∨
    D.uringDecoder.next (frame ++ rest) = .stop := by
  obtain ⟨hframe, hfits⟩ := h
  obtain ⟨header, hser, rfl⟩ := Option.map_eq_some_iff.mp hframe
  have hparse : D.parseHeader header = some r.header := by rw [hD, codec.parse_serialize hser]
  have hargs : r.header.argsSize.toNat = r.args.length := by
    simp only [Request.header, UInt32.toNat_ofNat']
    exact Nat.mod_eq_of_lt hfits.1
  by_cases hheader : header.length ≤ kMaxHeaderSize
  · by_cases hbody : r.args.length ≤ kMaxBodySize
    · by_cases hreg : D.Registered r.header r.args
      · exact .inl
          (D.next_wellFormed rest ⟨header, r.header, r.args, rfl, hheader, hparse, hargs.symm,
            hbody, hreg, rfl⟩)
      · exact .inr (D.next_broken (.request rest hheader hparse hargs.symm hbody hreg))
    · rw [List.append_assoc]
      exact .inr (D.next_broken (.argsSize (r.args ++ rest) hheader hparse (by omega)))
  · rw [List.append_assoc, List.append_assoc]
    exact .inr
      (D.next_broken
        (.headerSize (header ++ (r.args ++ rest)) (hfits.2 header hser) (not_le.mp hheader)))

lemma muduo_next_frame (hD : D.parseHeader = codec.parseFromString) (h : Carries codec r frame)
    (rest : Bytes) :
    D.muduoDecoder.next (frame ++ rest) = .emit [r] rest ∨
    D.muduoDecoder.next (frame ++ rest) = .emit [] rest := by
  obtain ⟨hframe, hfits⟩ := h
  obtain ⟨header, hser, rfl⟩ := Option.map_eq_some_iff.mp hframe
  have hparse : D.parseHeader header = some r.header := by rw [hD, codec.parse_serialize hser]
  have hargs : r.args.length = r.header.argsSize.toNat := by
    simp only [Request.header, UInt32.toNat_ofNat']
    exact (Nat.mod_eq_of_lt hfits.1).symm
  have hfront := Library.HeaderFraming.Framing.Front.frame (F := D.muduoFraming) rest
    (hfits.2 header hser) rfl hparse rfl hargs
  rw [D.muduo_next, List.append_assoc, List.append_assoc, hfront.next_eq]
  simp only [Decoding.muduoFraming]
  split_ifs
  · exact .inl rfl
  · exact .inr rfl

lemma reads_calls {d : Decoder UInt8 Request} {calls : List (Request × Bytes)} {stream : Bytes}
    (hstream : stream <+: calls.flatMap Prod.snd)
    (hnext : ∀ c ∈ calls, ∀ rest, d.next (c.2 ++ rest) = .emit [c.1] rest ∨
      d.next (c.2 ++ rest) = .emit [] rest ∨
      d.next (c.2 ++ rest) = .stop) : (d.drain stream).1.Sublist (calls.map Prod.fst) :=
  (d.drain_prefix hstream).sublist.trans (d.drain_each hnext)

end frames

section uring

variable {D : Decoding} {s t : Reactor} {g g' : Journal} {a : Reactor.Action} {w : ℕ → Bytes}

namespace Uring

def arrival (s : Reactor) : Reactor.Action → Option (ℕ × Bytes)
  | .recvDone i data => ((s.ops[i]?).bind Op.socket).map (fun k => (k, data))
  | _ => none

def accepting : Reactor.Action → Bool
  | .acceptDone _ _ => true
  | _ => false

lemma received_step (hs : s.view.Sound) (h : s.step D a = some t) (k : ℕ) :
    t.received k = s.received k ∨
    ∃ data, arrival s a = some (k, data) ∧ t.received k = s.received k ++ data := by
  have hcomplete : ∀ i result data, (s.complete i result data).received = s.received := by
    intro i result data
    obtain ⟨ops, cq, hshape⟩ := Reactor.complete_shape (s := s) i result data
    rw [hshape]
  obtain ⟨hen, rfl⟩ := Reactor.step_cases h
  cases a with
  | handle =>
    cases hcq : s.cq with
    | nil => exact absurd hcq hen.2
    | cons e rest =>
      simp only [Reactor.effect, hcq]
      cases Reactor.starts_handleCqe (D := D) hs hcq with
      | accepted _ _ hquiet => exact .inl (congrFun hquiet.received k)
      | plain _ hquiet => exact .inl (congrFun hquiet.received k)
      | copied p _ hquiet =>
        have hcopy : (({ s with cq := rest } : Reactor).copyOut e p).received = s.received := by
          unfold Reactor.copyOut
          split_ifs <;> rfl
        exact .inl (congrFun (hquiet.received.trans hcopy) k)
  | wake => exact .inl (congrFun Reactor.quiet_retryDeferred.received k)
  | recvDone i data =>
    obtain ⟨⟨o, hi, hop, hsocket⟩, _⟩ := hen
    obtain ⟨k', hk'⟩ := Option.ne_none_iff_exists'.mp (hsocket (.inl rfl))
    have hbind : (s.ops[i]?).bind Op.socket = some k' := by
      rw [Option.mem_def.mp hi, Option.bind_some, hk']
    simp only [Reactor.effect, arrival, hbind, Function.update_apply]
    split_ifs with heq
    · exact .inr ⟨data, by rw [heq]; rfl, by rw [heq]⟩
    · exact .inl rfl
  | acceptDone i fd => exact .inl (congrFun (hcomplete i fd []) k)
  | sendDone i m => exact .inl (congrFun (hcomplete i m []) k)
  | notifyDone i => exact .inl (congrFun (hcomplete i 8 []) k)
  | opFail i result => exact .inl (congrFun (hcomplete i result []) k)
  | workerDone i responseStr =>
    simp only [Reactor.effect, Reactor.workerDone]
    cases s.tasks[i]? <;> exact .inl rfl
  | _ => exact .inl rfl

lemma accepts_step (hs : s.view.Sound) (h : s.step D a = some t) :
    t.accepts = s.accepts + (accepting a).toNat := by
  have hcomplete : ∀ i result data, (s.complete i result data).accepts = s.accepts := by
    intro i result data
    obtain ⟨ops, cq, hshape⟩ := Reactor.complete_shape (s := s) i result data
    rw [hshape]
  obtain ⟨hen, rfl⟩ := Reactor.step_cases h
  cases a with
  | handle =>
    cases hcq : s.cq with
    | nil => exact absurd hcq hen.2
    | cons e rest =>
      simp only [Reactor.effect, hcq]
      cases Reactor.starts_handleCqe (D := D) hs hcq with
      | accepted _ _ hquiet => exact hquiet.accepts
      | plain _ hquiet => exact hquiet.accepts
      | copied p _ hquiet =>
        exact hquiet.accepts.trans (Reactor.copyOut_rest (s := { s with cq := rest }) e).2.1
  | wake => exact Reactor.quiet_retryDeferred.accepts
  | recvDone i data =>
    simp only [Reactor.effect]
    cases (s.ops[i]?).bind Op.socket with
    | none => rfl
    | some k => exact hcomplete i data.length data
  | acceptDone i fd => rfl
  | sendDone i m => exact hcomplete i m []
  | notifyDone i => exact hcomplete i 8 []
  | opFail i result => exact hcomplete i result []
  | workerDone i responseStr =>
    simp only [Reactor.effect, Reactor.workerDone]
    cases s.tasks[i]? <;> rfl
  | _ => rfl

lemma wire_grows (x y : Reactor × Journal) (a : Reactor.Action) (w : ℕ → Bytes) (k : ℕ) :
    w k <+: Reactor.noteWire x a y w k := by
  cases a with
  | sendDone i m =>
    simp only [Reactor.noteWire]
    cases x.1.ops[i]? with
    | none => exact List.prefix_rfl
    | some o =>
      cases hk : o.socket with
      | none =>
        simp only [hk]
        exact List.prefix_rfl
      | some k' =>
        simp only [hk, Function.update_apply]
        split_ifs with heq
        · rw [heq]
          exact List.prefix_append _ _
        · exact List.prefix_rfl
  | _ => exact List.prefix_rfl

end Uring

end uring

section servers

variable (codec : HeaderCodec) (services : Bytes → Option ServiceInfo)
    (service : Request → Bytes → Prop)
  [∀ r body, Decidable (service r body)]

def uringServer : ServerModel codec service where
  State := (Reactor × Journal) × (ℕ → Bytes)
  Action := Reactor.Action
  start := Reactor.serving
  step := Reactor.serve ⟨codec.parseFromString, services⟩
  ok x a := Reactor.Orderly (Sendable service) x.1.1 a
  decideOk _ _ := inferInstance
  accepts x := x.1.1.accepts
  received x := x.1.1.received
  requests x := x.1.2.requests
  sent x := x.2
  accepting := Uring.accepting
  arrival x := Uring.arrival x.1.1
  exclusive {x a} ha := by
    cases a with
    | acceptDone i fd => rfl
    | _ => cases ha
  accepts_step h hstep := Uring.accepts_step (Reactor.sound_run (Reactor.reactor_of_serve h).any)
    (noted_cases (noted_cases hstep).1).1
  received_step h hstep := Uring.received_step (Reactor.sound_run (Reactor.reactor_of_serve h).any)
    (noted_cases (noted_cases hstep).1).1
  sent_step {x a y} hstep k := by
    rw [(noted_cases hstep).2]
    exact Uring.wire_grows _ _ _ _ _
  unborn h k hk :=
    ((Reactor.isolated_run ((Reactor.reactor_of_serve h).weaken (fun _ _ hok => hok.1))).unborn k
      hk).1
  serves h := (Reactor.answered_run h).serves
  reads {as x} h k calls hcalls hreceived := by
    have hisolated :=
      Reactor.isolated_run ((Reactor.reactor_of_serve h).weaken (fun _ _ hok => hok.1))
    have hrequests : x.1.2.requests k = _ :=
      (Reactor.consumed_run (Reactor.record_of_serve h).any).requests k
    rw [hrequests]
    refine reads_calls ((hisolated.pre k).trans hreceived) (fun c hc rest => ?_)
    rcases uring_next_frame (D := ⟨codec.parseFromString, services⟩) rfl (hcalls c hc)
      rest with hemit | hstop
    · exact .inl hemit
    · exact .inr (.inr hstop)

def muduoServer : ServerModel codec service where
  State := RpcProvider
  Action := RpcProvider.Action
  start := {}
  step := RpcProvider.step ⟨codec.parseFromString, services⟩
  ok := RpcProvider.Upholds (Sendable service)
  decideOk _ _ := inferInstance
  accepts := RpcProvider.accepts
  received s k := (s.conns k).received
  requests s k := (s.conns k).requests
  sent s k := (s.conns k).sent
  accepting a := decide (a = .connected)
  arrival _
    | .message k data => some (k, data)
    | _ => none
  exclusive {s a} ha := by
    rw [of_decide_eq_true ha]
  accepts_step {as s a t} _ hstep := by
    rw [RpcProvider.accepts_step hstep]
    split_ifs with ha <;> simp [ha]
  received_step _ hstep k := by
    rcases (RpcProvider.conns_step hstep k).2 with hsame | ⟨data, rfl, hgrown⟩
    · exact .inl hsame
    · exact .inr ⟨data, rfl, hgrown⟩
  sent_step hstep k := by
    obtain ⟨rest, hrest⟩ := (RpcProvider.conns_step hstep k).1
    rw [TcpConnection.sent, TcpConnection.sent, ← hrest, List.map_append, List.flatten_append]
    exact List.prefix_append _ _
  unborn h k hk := by rw [(RpcProvider.sound_run h).unborn k hk]
  serves h := (RpcProvider.sound_run h).serves
  reads h k calls hcalls hreceived := by
    refine ((RpcProvider.sound_run h).requests_drained k).sublist.trans
      (reads_calls hreceived (fun c hc rest => ?_))
    rcases muduo_next_frame (D := ⟨codec.parseFromString, services⟩) rfl (hcalls c hc)
      rest with hemit | hskip
    · exact .inl hemit
    · exact .inr (.inl hskip)

end servers

end KimRpc.Network
