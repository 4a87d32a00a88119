import KimRpc.Client.RequestStream

/-! The two byte streams of a connection of the channel. What the receive loop takes from
one is whole response frames, and what is written to one begins the requests of calls. -/

namespace KimRpc.Client

open Library.LittleEndian Library.FramePieces Library.Runs Wire

namespace Reading

def spelled : Reading → Bytes
  | .size got => got
  | .id n got => encode 4 n ++ got
  | .body n i got => encode 4 n ++ encode 8 i.toNat ++ got
  | .frame i b => responseFrame i b
  | .illegal => []

def Proper : Reading → Prop
  | .size got => got.length < 4
  | .id n got => 8 ≤ n ∧ n < 2 ^ 32 ∧ got.length < 8
  | .body n _ got => 8 < n ∧ n < 2 ^ 32 ∧ got.length < n - 8
  | .frame _ b => b.length + 8 < 2 ^ 32
  | .illegal => True

lemma encode_value_of_length {n : ℕ} {bs : Bytes} (h : bs.length = n) :
    encode n (value bs) = bs := by
  rw [← h]
  exact encode_value bs

lemma spelled_id {n : ℕ} {bs : Bytes} (hn : 8 ≤ n) (hlt : n < 2 ^ 32) (h : bs.length = 8) :
    (gotId n (UInt64.ofNat (value bs))).Proper ∧
    (gotId n (UInt64.ofNat (value bs))).spelled = encode 4 n ++ bs := by
  have hv : value bs < 2 ^ 64 := (value_lt bs).trans_le (by rw [h]; norm_num)
  have hid : encode 8 (UInt64.ofNat (value bs)).toNat = bs := by
    rw [UInt64.toNat_ofNat', Nat.mod_eq_of_lt hv]
    exact encode_value_of_length h
  generalize UInt64.ofNat (value bs) = i at hid ⊢
  unfold gotId
  split_ifs with hzero
  · have hn' : n = 8 := by omega
    refine ⟨by simp [Proper], ?_⟩
    simp [spelled, responseFrame, hid, hn']
  · refine ⟨⟨by omega, hlt, by simp; omega⟩, ?_⟩
    simp [spelled, hid]

lemma spelled_recv {r : Reading} {piece : Bytes} (h : r.Proper) (hle : piece.length ≤ r.wants)
    (hlegal : r.recv piece ≠ .illegal) :
    (r.recv piece).Proper ∧ (r.wants ≠ 0 → (r.recv piece).spelled = r.spelled ++ piece) := by
  cases r with
  | size got =>
    simp only [wants] at hle
    simp only [Proper] at h
    simp only [recv] at hlegal ⊢
    split_ifs at hlegal ⊢ with hshort
    · exact ⟨hshort, fun _ => rfl⟩
    · have hlen : (got ++ piece).length = 4 := by
        rw [List.length_append] at hshort ⊢
        omega
      have hv : value (got ++ piece) < 2 ^ 32 := (value_lt _).trans_le (by rw [hlen]; norm_num)
      unfold gotSize at hlegal ⊢
      split_ifs at hlegal ⊢ with hsmall
      · exact absurd rfl hlegal
      · refine ⟨⟨not_lt.mp hsmall, hv, by simp⟩, fun _ => ?_⟩
        simp [spelled, encode_value_of_length hlen]
  | id n got =>
    simp only [wants] at hle
    obtain ⟨hn, hlt, hgot⟩ := h
    simp only [recv]
    split_ifs with hshort
    · exact ⟨⟨hn, hlt, hshort⟩, fun _ => by simp [spelled]⟩
    · have hlen : (got ++ piece).length = 8 := by
        rw [List.length_append] at hshort ⊢
        omega
      obtain ⟨hproper, hspelled⟩ := spelled_id hn hlt hlen
      exact ⟨hproper, fun _ => by rw [hspelled, spelled, List.append_assoc]⟩
  | body n i got =>
    simp only [wants] at hle
    obtain ⟨hn, hlt, hgot⟩ := h
    simp only [recv]
    split_ifs with hshort
    · exact ⟨⟨hn, hlt, hshort⟩, fun _ => by simp [spelled]⟩
    · have hlen : (got ++ piece).length = n - 8 := by
        rw [List.length_append] at hshort ⊢
        omega
      refine ⟨?_, fun _ => ?_⟩
      · simp only [Proper, hlen]
        omega
      · simp only [spelled, responseFrame, hlen, Nat.add_sub_cancel' (Nat.le_of_lt hn),
          List.append_assoc]
  | frame i b => exact ⟨h, fun hw => absurd rfl hw⟩
  | illegal => exact absurd rfl hlegal

end Reading

def Sized (frames : List (UInt64 × Bytes)) : Prop := ∀ f ∈ frames, f.2.length + 8 < 2 ^ 32

def flat (frames : List (UInt64 × Bytes)) : Bytes := frames.flatMap (fun f => responseFrame f.1 f.2)

lemma responseFrame_front {i j : UInt64} {b c rest rest' : Bytes} (hb : b.length + 8 < 2 ^ 32)
    (hc : c.length + 8 < 2 ^ 32)
    (h : responseFrame i b ++ rest = responseFrame j c ++ rest') : i = j ∧ b = c ∧
    rest = rest' := by
  simp only [responseFrame, List.append_assoc] at h
  obtain ⟨hsize, h⟩ := List.append_inj h (by simp)
  have hlen : b.length = c.length := by
    have hv := congrArg value hsize
    rw [value_encode_of_lt (by omega), value_encode_of_lt (by omega)] at hv
    omega
  obtain ⟨hid, h⟩ := List.append_inj h (by simp)
  obtain ⟨hbody, hrest⟩ := List.append_inj h hlen
  refine ⟨?_, hbody, hrest⟩
  have hv := congrArg value hid
  rw [value_encode_of_lt i.toNat_lt, value_encode_of_lt j.toNat_lt] at hv
  exact UInt64.toNat_inj.mp hv

lemma frames_prefix {frames frames' : List (UInt64 × Bytes)} (hs : Sized frames)
    (hs' : Sized frames')
    (h : flat frames <+: flat frames') : frames <+: frames' := by
  induction frames generalizing frames' with
  | nil => exact List.nil_prefix
  | cons f frames ih =>
    cases frames' with
    | nil =>
      have hlen := h.length_le
      simp [flat, responseFrame_length] at hlen
    | cons f' frames' =>
      obtain ⟨rest, hrest⟩ := h
      simp only [flat, List.flatMap_cons, List.append_assoc] at hrest
      obtain ⟨hid, hbody, htail⟩ := responseFrame_front (hs f (by simp)) (hs' f' (by simp)) hrest
      have hf : f = f' := Prod.ext hid hbody
      have hpre : frames <+: frames' :=
        ih (fun g hg => hs g (by simp [hg])) (fun g hg => hs' g (by simp [hg])) ⟨rest, htail⟩
      rw [hf]
      exact List.cons_prefix_cons.mpr ⟨rfl, hpre⟩

def Event.arrival : Event → Option (UInt64 × Bytes)
  | .arrived id body => some (id, body)
  | _ => none

def Action.piece : Action → Option Bytes
  | .recv piece => some piece
  | _ => none

namespace Channel

variable {env : ChannelEnv} {s t : Channel} {a : Action} {c : ℕ}

def heard (s : Channel) : List (UInt64 × Bytes) := s.log.filterMap Event.arrival

structure Aside (s : Channel) (a : Action) (t : Channel) : Prop where
  links : t.links.length = s.links.length
  clientfd : t.clientfd = s.clientfd ∨ t.clientfd = none
  heard : t.heard = s.heard
  unread : a.piece = none

inductive LoopStep (s : Channel) (a : Action) (t : Channel) : Prop
  | aside (haside : Aside s a t) (hreading : t.reading = s.reading)
      (hthread : t.recvThread = s.recvThread ∨
        t.recvThread ∉ [some .top, some .reading, some .completing])
  | opened (hlinks : t.links.length = s.links.length + 1) (hfd : t.clientfd = some s.links.length)
      (hheard : t.heard = s.heard)
      (hthread : t.recvThread = some .top) (hunread : a.piece = none)
  | begins (haside : Aside s a t) (hthread : s.recvThread = some .top)
      (hthread' : t.recvThread = some .reading)
      (hreading : t.reading = .size [])
  | reads (piece : Bytes) (fd : ℕ) (ha : a = .recv piece) (hthread : s.recvThread = some .reading)
      (hfd : s.clientfd = some fd)
      (hne : piece ≠ []) (hle : piece.length ≤ s.reading.wants)
      (ht : t = { s with reading := s.reading.recv piece })
  | took (id : UInt64) (body : Bytes) (hthread : s.recvThread = some .reading)
      (hreading : s.reading = .frame id body)
      (hthread' : t.recvThread = some .top ∨ t.recvThread = some .completing)
      (hlinks : t.links.length = s.links.length)
      (hfd : t.clientfd = s.clientfd) (hheard : t.heard = s.heard ++ [(id, body)])
      (hunread : a.piece = none)
  | rests (haside : Aside s a t) (hthread : s.recvThread = some .completing)
      (hthread' : t.recvThread = some .top)

lemma heard_append {events : List Event} (hlog : t.log = s.log ++ events)
    (hnone : ∀ e ∈ events, e.arrival = none) :
    t.heard = s.heard := by
  rw [heard, hlog, List.filterMap_append, List.filterMap_eq_nil_iff.mpr hnone, List.append_nil,
    heard]

lemma write_length (s : Channel) (c n : ℕ) : (s.write c n).length = s.links.length := by
  unfold write
  cases s.clientfd with
  | none => rfl
  | some fd => exact List.length_modify _ _ _

lemma LoopStep.quiet (events : List Event) (ha : a.piece = none)
    (hlinks : t.links.length = s.links.length)
    (hfd : t.clientfd = s.clientfd ∨ t.clientfd = none) (hlog : t.log = s.log ++ events)
    (hnone : ∀ e ∈ events, e.arrival = none) (hreading : t.reading = s.reading)
    (hthread : t.recvThread = s.recvThread) :
    LoopStep s a t :=
  .aside ⟨hlinks, hfd, heard_append hlog hnone, ha⟩ hreading (.inl hthread)

lemma LoopStep.still (ha : a.piece = none) (hlinks : t.links.length = s.links.length)
    (hfd : t.clientfd = s.clientfd ∨ t.clientfd = none) (hlog : t.log = s.log)
    (hreading : t.reading = s.reading)
    (hthread : t.recvThread = s.recvThread) : LoopStep s a t :=
  .quiet [] ha hlinks hfd (by rw [hlog, List.append_nil]) (by simp) hreading hthread

lemma take_arrival (taken : PendingMap) (taker : Taker) :
    ∀ e ∈ taken.entries.map (fun e => Event.took taker e.2.call), e.arrival = none := by
  intro e he
  obtain ⟨_, _, rfl⟩ := List.mem_map.mp he
  rfl

lemma loop_step (h : s.step env a = some t) : LoopStep s a t := by
  obtain ⟨he, rfl⟩ := step_eq h
  cases a with
  | prepare c inv =>
    rcases s.prepare_cases c env inv with hp | ⟨call, -, -, -, hp⟩ <;>
      exact .still rfl (by rw [effect, hp]; rfl) (.inl (by rw [effect, hp]; rfl))
        (by rw [effect, hp]; rfl)
        (by rw [effect, hp]; rfl) (by rw [effect, hp]; rfl)
  | connect c =>
    simp only [effect, Channel.connect]
    split_ifs
    · exact .still rfl rfl (.inl rfl) rfl rfl rfl
    · exact .still rfl rfl (.inr rfl) rfl rfl rfl
  | join c =>
    simp only [effect, Channel.join]
    split_ifs
    · exact .still rfl rfl (.inl rfl) rfl rfl rfl
    · exact .aside ⟨rfl, .inl rfl, rfl, rfl⟩ rfl (.inr (by simp))
  | openConnection c result =>
    rcases s.openConnection_cases c result with ⟨reason, -, ho⟩ | ⟨-, ho⟩
    · rw [effect, ho]
      exact .still rfl rfl (.inl rfl) rfl rfl rfl
    · rw [effect, ho]
      exact .opened (by simp) rfl rfl rfl rfl
  | register c =>
    exact .quiet [.registered c s.deadline] rfl rfl (.inl rfl) rfl (by simp [Event.arrival]) rfl rfl
  | send c ret =>
    obtain ⟨call, -, -, -, mtx, hs⟩ := s.send_cases c ret he.1
    rw [effect, hs]
    exact .still rfl (write_length s c ret) (.inl rfl) rfl rfl rfl
  | undo c =>
    simp only [effect, Channel.undo]
    split
    · exact .still rfl rfl (.inl rfl) rfl rfl rfl
    · exact .quiet [.took .callAsync c, .freed .callAsync c] rfl rfl (.inl rfl) rfl
        (by simp [Event.arrival])
        rfl rfl
  | fail c =>
    exact .quiet [.done .callAsync c (s.calls c).error s.now] rfl rfl (.inl rfl) rfl
      (by simp [Event.arrival])
      rfl rfl
  | recvTop =>
    simp only [effect, Channel.recvTop]
    split_ifs
    · exact .begins ⟨rfl, .inl rfl, rfl, rfl⟩ he rfl rfl
    · exact .aside ⟨rfl, .inl rfl, rfl, rfl⟩ rfl (.inr (by simp))
  | recv piece =>
    obtain ⟨hthread, hfd, hne, hle⟩ := he
    obtain ⟨fd, hfd⟩ := Option.ne_none_iff_exists'.mp hfd
    exact .reads piece fd rfl hthread hfd hne hle rfl
  | recvFail => exact .aside ⟨rfl, .inl rfl, rfl, rfl⟩ rfl (.inr (by simp [effect]))
  | recvTake id body =>
    simp only [effect, Channel.recvTake]
    split
    · exact .took id body he.1 he.2 (.inl rfl) rfl rfl (by simp [heard, record, Event.arrival]) rfl
    · refine .took id body he.1 he.2 (.inr rfl) rfl rfl ?_ rfl
      simp only [heard, take, record, setBatch, List.filterMap_append,
        List.filterMap_eq_nil_iff.mpr (take_arrival _ _), List.append_nil]
      rfl
  | recvNext => exact .rests ⟨rfl, .inl rfl, rfl, rfl⟩ he.1 rfl
  | recvFailAll =>
    refine .aside ⟨rfl, .inl rfl, ?_, rfl⟩ rfl (.inr (by simp [effect]))
    exact heard_append (t := s.effect env .recvFailAll) rfl (take_arrival s.pending _)
  | recvFinish => exact .aside ⟨rfl, .inl rfl, rfl, rfl⟩ rfl (.inr (by simp [effect]))
  | tick =>
    simp only [effect, Channel.tick]
    split_ifs
    · exact .still rfl rfl (.inl rfl) rfl rfl rfl
    · exact .quiet _ rfl rfl (.inl rfl) rfl (take_arrival _ _) rfl rfl
  | runDone w id =>
    simp only [effect, Channel.runDone]
    split
    · exact .still rfl rfl (.inl rfl) rfl rfl rfl
    · exact .quiet _ rfl rfl (.inl rfl) rfl (by simp [Event.arrival]) rfl rfl
  | free w =>
    simp only [effect, Channel.free]
    split
    · exact .still rfl rfl (.inl rfl) rfl rfl rfl
    · exact .quiet _ rfl rfl (.inl rfl) rfl (by simp [Event.arrival]) rfl rfl
  | teardown => exact .still rfl rfl (.inr rfl) rfl rfl rfl
  | joinRecv => exact .aside ⟨rfl, .inl rfl, rfl, rfl⟩ rfl (.inr (by simp [effect]))
  | closeAll =>
    simp only [effect, failAllPending, take, record, setBatch]
    exact .quiet _ rfl rfl (.inl rfl) rfl (take_arrival s.pending _) rfl rfl
  | _ => exact .still rfl rfl (.inl rfl) rfl rfl rfl

def noteGot (s : Channel) (a : Action) (_ : Channel) (w : ℕ → Bytes) : ℕ → Bytes :=
  match a with
  | .recv piece =>
    match s.clientfd with
    | none => w
    | some fd => Function.update w fd (w fd ++ piece)
  | _ => w

structure Heard (s : Channel) (w : ℕ → Bytes) : Prop where
  current : ∀ fd, s.clientfd = some fd → fd + 1 = s.links.length
  beyond : ∀ fd, s.links.length ≤ fd → w fd = []
  between : s.recvThread = some .top ∨ s.recvThread = some .completing →
    ∃ frames, Sized frames ∧ w (s.links.length - 1) = flat frames
  within : s.recvThread = some .reading → s.reading ≠ .illegal → s.reading.Proper ∧
    ∃ frames, Sized frames ∧ w (s.links.length - 1) = flat frames ++ s.reading.spelled
  taken : ∀ f ∈ s.heard, ∃ fd frames, Sized frames ∧ f ∈ frames ∧ flat frames <+: w fd

variable {w : ℕ → Bytes}

lemma noteGot_eq (ha : a.piece = none) : s.noteGot a t w = w := by
  cases a with
  | recv piece => cases ha
  | _ => rfl

lemma flat_snoc (frames : List (UInt64 × Bytes)) (id : UInt64) (body : Bytes) :
    flat (frames ++ [(id, body)]) = flat frames ++ responseFrame id body := by
  simp [flat]

section heard

variable (h : s.Heard w)
include h

lemma Heard.current_of (hlinks : t.links.length = s.links.length)
    (hfd : t.clientfd = s.clientfd ∨ t.clientfd = none) :
    ∀ fd, t.clientfd = some fd → fd + 1 = t.links.length := by
  intro fd hsome
  rcases hfd with hsame | hnone
  · rw [hlinks]
    exact h.current fd (hsame ▸ hsome)
  · rw [hnone] at hsome
    cases hsome

lemma Heard.aside (ha : Aside s a t)
    (hbetween : t.recvThread = some .top ∨ t.recvThread = some .completing →
      ∃ frames, Sized frames ∧ w (s.links.length - 1) = flat frames)
    (hwithin : t.recvThread = some .reading → t.reading ≠ .illegal → t.reading.Proper ∧
      ∃ frames, Sized frames ∧ w (s.links.length - 1) = flat frames ++ t.reading.spelled) :
      t.Heard (s.noteGot a t w) := by
  rw [noteGot_eq ha.unread]
  refine ⟨h.current_of ha.links ha.clientfd, fun fd hfd => h.beyond fd (ha.links ▸ hfd), ?_, ?_, ?_⟩
  · rw [ha.links]
    exact hbetween
  · rw [ha.links]
    exact hwithin
  · rw [ha.heard]
    exact h.taken

lemma Heard.reads {piece : Bytes} {fd : ℕ} (hthread : s.recvThread = some .reading)
    (hfd : s.clientfd = some fd) (hne : piece ≠ [])
    (hle : piece.length ≤ s.reading.wants) (ht : t = { s with reading := s.reading.recv piece }) :
    t.Heard (s.noteGot (.recv piece) t w) := by
  have hlast : fd + 1 = s.links.length := h.current fd hfd
  have hwants : s.reading.wants ≠ 0 := by
    have hpos := List.length_pos_iff.mpr hne
    omega
  have hlegal : s.reading ≠ .illegal := by
    intro hill
    rw [hill] at hwants
    exact hwants rfl
  obtain ⟨hproper, frames, hsized, hw⟩ := h.within hthread hlegal
  have hgrown : s.noteGot (.recv piece) t w = Function.update w fd (w fd ++ piece) := by
    simp only [noteGot, hfd]
  rw [hgrown]
  subst ht
  refine ⟨h.current, fun fd' hfd' => ?_, fun htop => ?_, fun _ hlegal' => ?_, fun f hf => ?_⟩
  · have hge : s.links.length ≤ fd' := hfd'
    rw [Function.update_of_ne (by omega)]
    exact h.beyond fd' hfd'
  · simp only [hthread] at htop
    simp at htop
  · obtain ⟨hproper', hspelled⟩ := Reading.spelled_recv hproper hle hlegal'
    refine ⟨hproper', frames, hsized, ?_⟩
    have hsub : s.links.length - 1 = fd := by omega
    rw [hsub] at hw
    simp only [hsub, Function.update_self, hw, hspelled hwants, List.append_assoc]
  · obtain ⟨fd', frames', hsized', hf', hpre⟩ := h.taken f hf
    refine ⟨fd', frames', hsized', hf', ?_⟩
    rw [Function.update_apply]
    split_ifs with heq
    · rw [heq] at hpre
      exact hpre.trans (List.prefix_append _ _)
    · exact hpre

lemma Heard.took {id : UInt64} {body : Bytes} (hthread : s.recvThread = some .reading)
    (hreading : s.reading = .frame id body)
    (hthread' : t.recvThread = some .top ∨ t.recvThread = some .completing)
    (hlinks : t.links.length = s.links.length)
    (hfd : t.clientfd = s.clientfd) (hheard : t.heard = s.heard ++ [(id, body)]) : t.Heard w := by
  obtain ⟨hproper, frames, hsized, hw⟩ := h.within hthread (by simp [hreading])
  rw [hreading] at hproper hw
  have hsized' : Sized (frames ++ [(id, body)]) := by
    intro f hf
    rcases List.mem_append.mp hf with hold | hnew
    · exact hsized f hold
    · rw [List.mem_singleton.mp hnew]
      exact hproper
  have hw' : w (s.links.length - 1) = flat (frames ++ [(id, body)]) := by
    rw [flat_snoc]
    exact hw
  refine ⟨h.current_of hlinks (.inl hfd), fun fd hge => h.beyond fd (hlinks ▸ hge), fun _ => ?_,
    fun hread => ?_, fun f hf => ?_⟩
  · rw [hlinks]
    exact ⟨_, hsized', hw'⟩
  · rcases hthread' with hother | hother
    · simp [hother] at hread
    · simp [hother] at hread
  · rw [hheard] at hf
    rcases List.mem_append.mp hf with hold | hnew
    · exact h.taken f hold
    · rw [List.mem_singleton.mp hnew]
      exact ⟨s.links.length - 1, _, hsized', by simp, by rw [hw']⟩

lemma Heard.step (hstep : s.step env a = some t) : t.Heard (s.noteGot a t w) := by
  cases loop_step hstep with
  | aside haside hreading hthread =>
    refine h.aside haside (fun htop => ?_) (fun hread hlegal => ?_)
    · rcases hthread with hsame | hoff
      · exact h.between (hsame ▸ htop)
      · rcases htop with htop | htop <;> simp [htop] at hoff
    · rcases hthread with hsame | hoff
      · rw [hreading] at hlegal ⊢
        exact h.within (hsame ▸ hread) hlegal
      · simp [hread] at hoff
  | opened hlinks hfd hheard hthread hunread =>
    rw [noteGot_eq hunread]
    refine ⟨fun fd hsome => ?_, fun fd hge => h.beyond fd (by omega), fun _ => ?_,
      fun hread => ?_, ?_⟩
    · cases Option.some.inj (hfd.symm.trans hsome)
      exact hlinks.symm
    · refine ⟨[], nofun, ?_⟩
      rw [hlinks, Nat.add_sub_cancel]
      exact h.beyond _ le_rfl
    · simp [hthread] at hread
    · rw [hheard]
      exact h.taken
  | begins haside hthread hthread' hreading =>
    refine h.aside haside (fun htop => ?_) (fun _ _ => ?_)
    · simp [hthread'] at htop
    · obtain ⟨frames, hsized, hw⟩ := h.between (.inl hthread)
      rw [hreading]
      exact ⟨by simp [Reading.Proper], frames, hsized, by rw [hw, Reading.spelled, List.append_nil]⟩
  | reads piece fd ha hthread hfd hne hle ht =>
    subst ha
    exact h.reads hthread hfd hne hle ht
  | took id body hthread hreading hthread' hlinks hfd hheard hunread =>
    rw [noteGot_eq hunread]
    exact h.took hthread hreading hthread' hlinks hfd hheard
  | rests haside hthread hthread' =>
    refine h.aside haside (fun _ => h.between (.inr hthread)) (fun hread => ?_)
    simp [hthread'] at hread

end heard

/-- The frame of a call carries this request, under the id of the call. -/
def Asks (env : ChannelEnv) (s : Channel) (c : ℕ) (r : Request) : Prop :=
  sendRpcStr env.codec r = some (s.frame c) ∧ r.requestId = (s.calls c).requestId

def Fits (codec : HeaderCodec) (r : Request) : Prop :=
  r.args.length < 2 ^ 32 ∧ ∀ header ∈ codec.serializeToString r.header, header.length < 2 ^ 32

instance (codec : HeaderCodec) (r : Request) : Decidable (Fits codec r) :=
  inferInstanceAs (Decidable (_ ∧ _))

/-- No argument and no header is longer than what a message can be. -/
def fits (env : ChannelEnv) (s : Channel) : Action → Bool
  | .prepare _ inv =>
    ∀ argsStr ∈ inv.argsStr, Fits env.codec ⟨inv.serviceName, inv.methodName, s.nextId, argsStr⟩
  | _ => true

def unregistered : List CallPc := [.connecting, .joining, .opening, .registering]

structure Asked (env : ChannelEnv) (s : Channel) : Prop where
  early : ∀ c, (s.calls c).pc ∈ [CallPc.absent, .preparing] → s.frame c = []
  asks : ∀ c, s.frame c = [] ∨ ∃ r, Asks env s c r ∧ Fits env.codec r
  framing : ∀ c, (s.calls c).pc ∈ unregistered → s.frame c ≠ []
  pending : ∀ id p, s.pending.lookup id = some p → s.frame p.call ≠ []

structure Kept (s t : Channel) : Prop where
  frame : ∀ d, t.frame d = s.frame d
  requestId : ∀ d, (t.calls d).requestId = (s.calls d).requestId
  early : ∀ d, (t.calls d).pc ∈ [CallPc.absent, .preparing] →
      (s.calls d).pc ∈ [CallPc.absent, .preparing]
  framing : ∀ d, (t.calls d).pc ∈ unregistered → (s.calls d).pc ∈ unregistered

lemma Kept.of_calls (hcalls : t.calls = s.calls) : Kept s t := by
  refine ⟨fun d => ?_, fun d => ?_, fun d => ?_, fun d => ?_⟩
  · rw [Channel.frame, hcalls]
    rfl
  all_goals
    rw [hcalls]
  · exact id
  · exact id

lemma Kept.update {r : Call} (hcalls : t.calls = Function.update s.calls c r)
    (hframe : r.sendRpcStr = (s.calls c).sendRpcStr) (hid : r.requestId = (s.calls c).requestId)
    (hpc : r.pc ∉ [CallPc.absent, .preparing])
    (hframing : r.pc ∈ unregistered → (s.calls c).pc ∈ unregistered) : Kept s t := by
  refine ⟨fun d => ?_, fun d => ?_, fun d => ?_, fun d => ?_⟩
  all_goals
    by_cases hd : d = c
    · subst hd
      simp only [Channel.frame, hcalls, Function.update_self]
      first | exact hframe | exact hid | exact fun h => absurd h hpc | exact hframing
    · simp only [Channel.frame, hcalls, Function.update_of_ne hd]
      try exact id

lemma frame_step (h : s.step env a = some t) : Kept s t ∨
    (∃ call : Call, call.sendRpcStr = [] ∧ call.pc = .preparing ∧
      t.calls = Function.update s.calls s.started call) ∨ ∃ c inv, a = .prepare c inv := by
  obtain ⟨he, rfl⟩ := step_eq h
  cases a with
  | start parent => exact .inr (.inl ⟨_, rfl, rfl, rfl⟩)
  | prepare c inv => exact .inr (.inr ⟨c, inv, rfl⟩)
  | connect c =>
    simp only [effect, Channel.connect]
    split_ifs
    · exact .inl (Kept.update (c := c) rfl rfl rfl (by simp) (by simp [he.1, unregistered]))
    · exact .inl (Kept.update (c := c) rfl rfl rfl (by simp) (by simp [he.1, unregistered]))
  | join c =>
    simp only [effect, Channel.join]
    split_ifs
    · exact .inl (.of_calls rfl)
    · exact .inl (Kept.update (c := c) rfl rfl rfl (by simp) (by simp [he.1, unregistered]))
  | openConnection c result =>
    have hpc : (s.calls c).pc = .opening := he
    rcases s.openConnection_cases c result with ⟨reason, -, ho⟩ | ⟨-, ho⟩
    · rw [effect, ho]
      exact .inl (Kept.update (c := c) rfl rfl rfl (by simp) (by simp [hpc, unregistered]))
    · rw [effect, ho]
      exact .inl (Kept.update (c := c) rfl rfl rfl (by simp) (by simp [hpc, unregistered]))
  | register c => exact .inl (Kept.update (c := c) rfl rfl rfl (by simp) (by simp [unregistered]))
  | lockSend c => exact .inl (Kept.update (c := c) rfl rfl rfl (by simp) (by simp [unregistered]))
  | send c ret =>
    obtain ⟨call, mtx, -, hframe, -, hpc, hsend⟩ := wrote_eq ret he.1 he.2.2.2
    obtain ⟨call', hpc', hid, -, mtx', hsend'⟩ := s.send_cases c ret he.1
    have hcall : call = call' := by
      have hcalls := congrArg (fun u => u.calls c) (hsend.symm.trans hsend')
      simpa [setCall] using hcalls
    rw [effect, hsend]
    refine .inl (Kept.update (c := c) rfl hframe (hcall ▸ hid) ?_ ?_)
    all_goals
      rcases hpc with ⟨hpc, -⟩ | ⟨hpc, -⟩ <;> simp [hpc, unregistered]
  | sendFail c errno =>
    exact .inl (Kept.update (c := c) rfl rfl rfl (by simp) (by simp [unregistered]))
  | undo c =>
    simp only [effect, Channel.undo]
    split
    · exact .inl (Kept.update (c := c) rfl rfl rfl (by simp) (by simp [unregistered]))
    · exact .inl (Kept.update (c := c) rfl rfl rfl (by simp) (by simp [unregistered]))
  | fail c => exact .inl (Kept.update (c := c) rfl rfl rfl (by simp) (by simp [unregistered]))
  | «return» c => exact .inl (Kept.update (c := c) rfl rfl rfl (by simp) (by simp [unregistered]))
  | recvTop =>
    simp only [effect, Channel.recvTop]
    split_ifs <;> exact .inl (.of_calls rfl)
  | recvTake id body =>
    simp only [effect, Channel.recvTake]
    split <;> exact .inl (.of_calls rfl)
  | tick =>
    simp only [effect, Channel.tick]
    split_ifs <;> exact .inl (.of_calls rfl)
  | runDone w id =>
    simp only [effect, Channel.runDone]
    split <;> exact .inl (.of_calls rfl)
  | free w =>
    simp only [effect, Channel.free]
    split <;> exact .inl (.of_calls rfl)
  | _ => exact .inl (.of_calls rfl)

lemma sendRpcStr_ne_nil {codec : HeaderCodec} {r : Request} {frame : Bytes}
    (h : sendRpcStr codec r = some frame) : frame ≠ [] := by
  obtain ⟨header, -, rfl⟩ := Option.map_eq_some_iff.mp h
  rw [← List.length_pos_iff]
  simp

lemma prepare_frame (hearly : s.frame c = []) {inv : Invocation}
    (hok : s.fits env (.prepare c inv) = true) :
    ∃ call : Call, (s.prepare env c inv).calls = Function.update s.calls c call ∧
      call.pc ∉ [CallPc.absent, .preparing] ∧ (call.sendRpcStr = [] ∧ call.pc ∉ unregistered ∨
        ∃ r, sendRpcStr env.codec r = some call.sendRpcStr ∧ r.requestId = call.requestId ∧
        Fits env.codec r) := by
  cases hargs : inv.argsStr with
  | none =>
    refine ⟨{ s.calls c with pc := .failing, error := some .serializeRequest },
      ?_, by simp, .inl ⟨hearly, by simp [unregistered]⟩⟩
    simp [prepare, hargs, failWith, setCall]
  | some argsStr =>
    have hfits : Fits env.codec ⟨inv.serviceName, inv.methodName, s.nextId, argsStr⟩ :=
      of_decide_eq_true hok argsStr hargs
    cases hsend : sendRpcStr env.codec ⟨inv.serviceName, inv.methodName, s.nextId, argsStr⟩ with
    | none =>
      refine ⟨{ s.calls c with
        requestId := s.nextId, pc := .failing, error := some .serializeRpcHeader }, ?_, by simp,
        .inl ⟨hearly, by simp [unregistered]⟩⟩
      simp [prepare, hargs, hsend, allocate, failWith, setCall]
    | some sendRpcStr =>
      cases hg : getRpcAddress inv.methodPath inv.address with
      | error error =>
        refine ⟨{ s.calls c with requestId := s.nextId, pc := .failing, error := some error },
          ?_, by simp,
          .inl ⟨hearly, by simp [unregistered]⟩⟩
        simp [prepare, hargs, hsend, hg, allocate, failWith, setCall]
      | ok hostData =>
        refine ⟨{ s.calls c with
          requestId := s.nextId, pc := .connecting, hostData := hostData,
          sendRpcStr := sendRpcStr }, ?_, by simp,
            .inr ⟨_, hsend, rfl, hfits⟩⟩
        simp [prepare, hargs, hsend, hg, allocate, setCall]

lemma Asked.update (h : Asked env s) {call : Call}
    (hcalls : t.calls = Function.update s.calls c call)
    (hpending : ∀ id p, t.pending.lookup id = some p → s.pending.lookup id = some p ∧ p.call ≠ c)
    (hearly : call.pc ∈ [CallPc.absent, .preparing] → call.sendRpcStr = [])
    (hasks : call.sendRpcStr = [] ∧ call.pc ∉ unregistered ∨
      ∃ r, sendRpcStr env.codec r = some call.sendRpcStr ∧
      r.requestId = call.requestId ∧ Fits env.codec r) : Asked env t := by
  have hother : ∀ d ≠ c, t.calls d = s.calls d :=
    fun d hd => by rw [hcalls, Function.update_of_ne hd]
  have hself : t.calls c = call := by rw [hcalls, Function.update_self]
  refine ⟨fun d hd => ?_, fun d => ?_, fun d hd => ?_, fun id p hp => ?_⟩
  · by_cases hdc : d = c
    · rw [hdc, hself] at hd
      rw [frame, hdc, hself]
      exact hearly hd
    · rw [hother d hdc] at hd
      rw [frame, hother d hdc]
      exact h.early d hd
  · by_cases hdc : d = c
    · simp only [Asks, frame, hdc, hself]
      rcases hasks with ⟨hnone, -⟩ | ⟨r, hr, hid, hfits⟩
      · exact .inl hnone
      · exact .inr ⟨r, ⟨hr, hid⟩, hfits⟩
    · simp only [Asks, frame, hother d hdc]
      exact h.asks d
  · by_cases hdc : d = c
    · rw [hdc, hself] at hd
      rw [frame, hdc, hself]
      rcases hasks with ⟨-, hnot⟩ | ⟨r, hr, -, -⟩
      · exact absurd hd hnot
      · exact sendRpcStr_ne_nil hr
    · rw [hother d hdc] at hd
      rw [frame, hother d hdc]
      exact h.framing d hd
  · obtain ⟨hold, hne⟩ := hpending id p hp
    rw [frame, hother _ hne]
    exact h.pending id p hold

lemma Asked.step (h : Asked env s) (hcalled : s.Called) (hk : s.Keyed) (hok : s.fits env a = true)
    (hstep : s.step env a = some t) : Asked env t := by
  have hpending : ∀ c, (s.calls c).pc ∈ Channel.early → (∀ d, a ≠ .register d) →
      ∀ id p, t.pending.lookup id = some p → s.pending.lookup id = some p ∧ p.call ≠ c := by
    intro c hc ha id p hp
    rcases pending_step hstep hp with hold | ⟨hreg, -, -⟩
    · refine ⟨hold, ?_⟩
      rintro rfl
      exact (hk id p hold).2 hc
    · exact absurd hreg (ha _)
  rcases frame_step hstep with hkept | ⟨call, hframe, hpc, hcalls⟩ | ⟨c, inv, rfl⟩
  · refine ⟨fun d hd => ?_, fun d => ?_, fun d hd => ?_, fun id p hp => ?_⟩
    · rw [hkept.frame]
      exact h.early d (hkept.early d hd)
    · simp only [Asks, hkept.frame, hkept.requestId]
      exact h.asks d
    · rw [hkept.frame]
      exact h.framing d (hkept.framing d hd)
    · rw [hkept.frame]
      rcases pending_step hstep hp with hold | ⟨-, hreg, -⟩
      · exact h.pending id p hold
      · exact h.framing p.call (by simp [hreg, unregistered])
  · have habsent : (s.calls s.started).pc ∈ Channel.early := by
      simp [hcalled.absent _ le_rfl, Channel.early]
    refine h.update hcalls (hpending _ habsent ?_) (fun _ => hframe)
      (.inl ⟨hframe, by simp [hpc, unregistered]⟩)
    rintro d rfl
    obtain ⟨he, rfl⟩ := step_eq hstep
    have hreg : (s.calls d).pc = .registering := he
    have hd := congrArg (fun calls => (calls s.started).pc) hcalls
    have hne : s.started ≠ d := by
      rintro rfl
      simp [hcalled.absent _ le_rfl] at hreg
    have hsame : ((s.effect env (.register d)).calls s.started) = s.calls s.started :=
      Function.update_of_ne hne _ _
    simp only [hsame, hcalled.absent _ le_rfl, Function.update_self, hpc] at hd
    cases hd
  · obtain ⟨he, ht⟩ := step_eq hstep
    have hpc : (s.calls c).pc = .preparing := he
    obtain ⟨call, hcalls, hlate, hasks⟩ := prepare_frame (h.early c (by simp [hpc])) hok
    exact h.update (ht ▸ hcalls) (hpending c (by simp [hpc, Channel.early]) (by simp))
      (fun hearly => absurd hearly hlate) hasks

section identified

variable {order : List ℕ}

lemma Numbered.grows (hi : s.Numbered order) (hcalled : s.Called) (h : s.step env a = some t) :
    ∃ order', t.Numbered order' ∧ order <+: order' := by
  cases step_calls h with
  | idle hcalls hstarted hid =>
    refine ⟨order, ⟨hid ▸ hi.next, hi.nodup, ?_, ?_⟩, List.prefix_rfl⟩
    · rw [hcalls, hstarted]
      exact hi.begun
    · rw [hcalls]
      exact hi.ids
  | started call hpc _ hcalls hstarted hid =>
    refine ⟨order, ⟨hid ▸ hi.next, hi.nodup, fun d hd => ?_, fun d hd => ?_⟩, List.prefix_rfl⟩
    · have hlt := (hi.begun d hd).1
      rw [hcalls, hstarted, Function.update_of_ne hlt.ne]
      exact ⟨hlt.trans (Nat.lt_succ_self _), (hi.begun d hd).2⟩
    · rw [hcalls] at hd ⊢
      by_cases hds : d = s.started
      · subst hds
        simp [CallPc.Tagged, hpc] at hd
      · rw [Function.update_of_ne hds] at hd ⊢
        exact hi.ids d hd
  | moved c call hmoves hcalls hstarted hid =>
    have hpc : call.pc ≠ .preparing := by
      intro hpc
      have hnext := hmoves.pc
      rw [hpc] at hnext
      cases hs : (s.calls c).pc <;> simp [hs, CallPc.next] at hnext
    refine ⟨order, hi.update hpc (fun htag => ?_) hmoves.requestId hcalls hstarted hid,
      List.prefix_rfl⟩
    have hnext := hmoves.pc
    cases hs : (s.calls c).pc <;> simp [hs, CallPc.next] at hnext <;> simp_all [CallPc.Tagged]
  | allocated c call hpc hpc' hrequest _ hcalls hstarted hid =>
    have hlate : call.pc ≠ .preparing := by rcases hpc' with hpc' | hpc' <;> simp [hpc']
    exact ⟨order ++ [c], hi.allocate hcalled hpc hlate hrequest hcalls hstarted hid,
      List.prefix_append _ _⟩

structure Identified (s : Channel) (order : List ℕ) : Prop extends s.Numbered order where
  framed : ∀ c, s.frame c ≠ [] → ∃ k : ℕ, order[k]? = some c ∧
      (s.calls c).requestId = UInt64.ofNat (1 + k)

lemma Identified.distinct (h : s.Identified order) (hlt : s.started < 2 ^ 64) {c d : ℕ}
    (hc : s.frame c ≠ [])
    (hd : s.frame d ≠ []) (hid : (s.calls c).requestId = (s.calls d).requestId) : c = d := by
  obtain ⟨k, hk, hck⟩ := h.framed c hc
  obtain ⟨l, hl, hdl⟩ := h.framed d hd
  have hklt := (List.getElem?_eq_some_iff.mp hk).1
  have hllt := (List.getElem?_eq_some_iff.mp hl).1
  have hle := h.length_le
  rw [hck, hdl] at hid
  have hmod := congrArg UInt64.toNat hid
  simp only [UInt64.toNat_ofNat'] at hmod
  have hkl : k = l := by omega
  subst hkl
  exact Option.some.inj (hk.symm.trans hl)

lemma Identified.step (h : s.Identified order) (hcalled : s.Called)
    (hstep : s.step env a = some t) :
    ∃ order', t.Identified order' := by
  obtain ⟨order', hnumbered, hpre⟩ := h.grows hcalled hstep
  obtain ⟨rest, rfl⟩ := hpre
  have hold : ∀ d, s.frame d ≠ [] → (t.calls d).requestId = (s.calls d).requestId →
      ∃ k : ℕ, (order ++ rest)[k]? = some d ∧ (t.calls d).requestId = UInt64.ofNat (1 + k) := by
    intro d hd hid
    obtain ⟨k, hk, hck⟩ := h.framed d hd
    have hlt := (List.getElem?_eq_some_iff.mp hk).1
    exact ⟨k, (List.getElem?_append_left hlt).trans hk, hid.trans hck⟩
  rcases frame_step hstep with hkept | ⟨call, hframe, -, hcalls⟩ | ⟨c, inv, rfl⟩
  · exact ⟨_, hnumbered, fun d hd => hold d (hkept.frame d ▸ hd) (hkept.requestId d)⟩
  · refine ⟨_, hnumbered, fun d hd => ?_⟩
    rw [frame, hcalls] at hd
    by_cases hds : d = s.started
    · subst hds
      rw [Function.update_self] at hd
      exact absurd hframe hd
    · rw [Function.update_of_ne hds] at hd
      exact hold d hd (by rw [hcalls, Function.update_of_ne hds])
  · obtain ⟨he, ht⟩ := step_eq hstep
    have hpc : (s.calls c).pc = .preparing := he
    rcases s.prepare_cases c env inv with hprepare | ⟨call, hpc', hid, -, hprepare⟩
    · rw [effect, hprepare] at ht
      refine ⟨_, hnumbered, fun d hd => ?_⟩
      have hkept : Kept s t :=
        .update (c := c) (r := { s.calls c with pc := .failing, error := some .serializeRequest })
        (by rw [ht]; rfl) rfl rfl (by simp) (by simp [unregistered])
      exact hold d (hkept.frame d ▸ hd) (hkept.requestId d)
    · rw [effect, hprepare] at ht
      have hlate : call.pc ≠ .preparing := by rcases hpc' with hpc' | hpc' <;> simp [hpc']
      have hcalls : t.calls = Function.update s.calls c call := by
        rw [ht]
        rfl
      have hnext : t.Numbered (order ++ [c]) :=
        h.allocate hcalled hpc hlate hid hcalls (by rw [ht]; rfl) (by rw [ht])
      refine ⟨_, hnext, fun d hd => ?_⟩
      rw [frame, hcalls] at hd
      rw [hcalls]
      by_cases hdc : d = c
      · subst hdc
        rw [Function.update_self, hid, h.next]
        exact ⟨order.length, List.getElem?_concat_length, rfl⟩
      · rw [Function.update_of_ne hdc] at hd ⊢
        obtain ⟨k, hk, hck⟩ := h.framed d hd
        have hlt := (List.getElem?_eq_some_iff.mp hk).1
        exact ⟨k, (List.getElem?_append_left hlt).trans hk, hck⟩

end identified

lemma asked_run {as : List Action}
    (h : Run (Channel.step env) (fun u a => u.fits env a = true) constructed as t) :
    Asked env t ∧ ∃ order, t.Identified order := by
  refine h.invariant_with (K := fun u => u.Sound ∧ u.Keyed) (I := fun u => Asked env u ∧
    ∃ order, u.Identified order) ?_
    (fun _ _ hr => ⟨sound_run hr, keyed_run hr⟩) ?_
  · refine ⟨⟨fun _ _ => rfl,
      fun _ => .inl rfl, by simp [constructed, unregistered], by
        simp [constructed, AList.lookup_empty]⟩, [],
          ⟨rfl, List.nodup_nil, by simp, by simp [constructed, CallPc.Tagged]⟩, ?_⟩
    exact fun c hc => absurd rfl hc
  · rintro u a v ⟨hs, hk⟩ - ⟨hasked, order, hi⟩ hok hstep
    exact ⟨hasked.step hs.called hk hok hstep, hi.step hs.called hstep⟩

end Channel

end KimRpc.Client
