import KimRpc.Client.Addresses
import KimRpc.Client.Connections

/-! `ensureConnected` in the channel, where other threads take steps between its own, against the
function of an address: what it returns, and the fields that it sets, are as if each call went
through at once. -/

namespace KimRpc.Client

open Discovery Library.Decimal Library.Runs Wire

section texts

lemma text_append (xs ys : Bytes) :
    CallEnv.text (xs ++ ys) = CallEnv.text xs ++ CallEnv.text ys := by
  rw [CallEnv.text, List.map_append, String.ofList_append]
  rfl

lemma toList_text (bs : Bytes) :
    (CallEnv.text bs).toList = bs.map (fun b => Char.ofNat b.toNat) := by
  rw [CallEnv.text, String.toList_ofList]

lemma colon_text (bs : Bytes) : ':' ∈ (CallEnv.text bs).toList ↔ 58 ∈ bs := by
  have hcolon : ∀ n < 256, Char.ofNat n = ':' → n = 58 := by decide +kernel
  rw [toList_text, List.mem_map]
  constructor
  · rintro ⟨b, hb, heq⟩
    have hb' : b = 58 := UInt8.toNat_inj.mp (hcolon b.toNat b.toNat_lt heq)
    rwa [hb'] at hb
  · exact fun h => ⟨58, h, rfl⟩

lemma text_injective : Function.Injective CallEnv.text := by
  have hchar : ∀ n < 256, (Char.ofNat n).toNat = n := by decide +kernel
  intro xs ys h
  have hlists : xs.map (fun b => Char.ofNat b.toNat) = ys.map (fun b => Char.ofNat b.toNat) := by
    rw [← toList_text, h, toList_text]
  refine List.map_injective_iff.mpr (fun b b' hb => ?_) hlists
  have hnat := congrArg Char.toNat hb
  rw [hchar _ b.toNat_lt, hchar _ b'.toNat_lt] at hnat
  exact UInt8.toNat_inj.mp hnat

lemma text_decimal (n : ℕ) : CallEnv.text (decimal n) = toString n := by
  rw [Nat.toString_eq_ofList_toDigits, CallEnv.text]
  refine congrArg String.ofList ?_
  have hdigit : ∀ d < 10, Char.ofNat (digit d).toNat = Nat.digitChar d := by decide
  induction n using Nat.strong_induction_on with
  | h n ih =>
    by_cases hlt : n < 10
    · rw [Nat.toDigits_of_lt_base hlt]
      interval_cases n <;> rfl
    · have hne : n ≠ 0 := by omega
      have hpos : n / 10 ≠ 0 := by omega
      have hrest := ih (n / 10) (by omega)
      rw [decimal, if_neg hpos] at hrest
      rw [decimal, if_neg hne, Nat.digits_def' (by decide) (by omega), List.reverse_cons,
        List.map_append, List.map_append,
        hrest, Nat.toDigits_of_base_le (by decide) (not_lt.mp hlt)]
      simp [hdigit (n % 10) (by omega)]

end texts

section dial

variable {s : Channel} {c : ℕ} {hostData : HostData}

/-- The answers of the kernel; the channel numbers its descriptors. -/
def Opening.kernel (result : Opening) (fd : ℕ) : Kernel :=
  match result with
  | .socketError errno => ⟨.error errno, none⟩
  | .connectError errno => ⟨.ok fd, some errno⟩
  | .connected => ⟨.ok fd, none⟩

def Opening.Agrees (result : Opening) (k : Kernel) : Prop := ∃ fd, k = result.kernel fd

def Action.opening : Client.Action → Option Opening
  | .openConnection _ result => some result
  | _ => none

def Endpoint.Action.kernel : Endpoint.Action → Option Kernel
  | .ensure k _ _ => some k
  | .recvLoopEnds => none

inductive Channel.Dials (s : Channel) (c : ℕ) : Opening → Ensured × Endpoint → Prop
  | failed {result : Opening} {error : Bytes} (reason : Reason)
      (htext : reason.text = CallEnv.text error)
      (h : s.openConnection c result = { s.failWith c reason with connMtx := none }) :
      s.Dials c result (.failed error, {})
  | connected {hostData : HostData} {peer : Option (Bytes × ℕ)}
      (hhost : (s.calls c).hostData = CallEnv.text hostData.bytes)
      (h : s.openConnection c .connected = { s.goto c .registering with
        connMtx := none, clientfd := some s.links.length, connectedHost := (s.calls c).hostData,
        running := true,
        recvThread := some .top, links := s.links ++ [⟨(s.calls c).hostData, []⟩] }) :
      s.Dials c .connected (.connected, ⟨some s.links.length, true, hostData.bytes, true, peer⟩)

lemma Channel.dials_openConnection (hhost : (s.calls c).hostData = CallEnv.text hostData.bytes)
    (hport : 58 ∈ hostData.bytes → ipPort hostData.bytes ≠ none) (result : Opening) :
    s.Dials c result (Endpoint.dial (result.kernel s.links.length) hostData.bytes) := by
  have hcolon : ':' ∈ (s.calls c).hostData.toList ↔ 58 ∈ hostData.bytes := by rw [hhost, colon_text]
  unfold Endpoint.dial
  by_cases hmem : 58 ∈ hostData.bytes
  · rw [if_neg (fun hnone => (colon_eq hostData.short).mp hnone hmem)]
    obtain ⟨⟨ip, port⟩, hpeer⟩ := Option.ne_none_iff_exists'.mp (hport hmem)
    rw [hpeer]
    cases result with
    | socketError errno =>
      refine .failed (.createSocket errno) ?_ (by simp [openConnection, hcolon.mpr hmem])
      rw [text_append, text_decimal]
      rfl
    | connectError errno =>
      refine .failed (.connect errno) ?_ (by simp [openConnection, hcolon.mpr hmem])
      rw [text_append, text_decimal]
      rfl
    | connected => exact .connected hhost (Channel.opened_eq (hcolon.mpr hmem))
  · rw [if_pos (colon_none hmem)]
    refine .failed (.addressInvalid (s.calls c).hostData) ?_
      (by simp [openConnection, hcolon, hmem])
    have hinvalid : CallEnv.text (text " address is invalid") = " address is invalid" := by decide
    calc (s.calls c).hostData ++ " address is invalid" = CallEnv.text hostData.bytes ++
      " address is invalid" := by rw [hhost]
      _ = CallEnv.text (hostData.bytes ++ text " address is invalid") := by
        rw [text_append, hinvalid]

end dial

namespace Channel

variable {env : ChannelEnv} {s t : Channel} {a : Client.Action} {c : ℕ} {e : Endpoint}

def Stopped (s : Channel) : Prop :=
  s.recvThread ∉ [some .top, some .reading, some .completing] → s.running = false

lemma Stopped.step (hi : s.Stopped) (h : s.step env a = some t) : t.Stopped := by
  obtain ⟨he, rfl⟩ := step_eq h
  cases a with
  | prepare c inv =>
    rcases s.prepare_cases c env inv with hp | ⟨call, -, -, -, hp⟩ <;> rw [effect, hp] <;> exact hi
  | connect c =>
    simp only [effect, Channel.connect]
    split_ifs <;> exact hi
  | join c =>
    simp only [effect, Channel.join]
    split_ifs with hself
    · exact hi
    · intro _
      refine hi ?_
      rcases he.2 with hrecv | hrecv | hrecv
      · simp [hrecv]
      · simp [hrecv]
      · simp [show s.recvThread = none by simpa [hrecv] using hself]
  | openConnection c result =>
    rcases s.openConnection_cases c result with ⟨reason, -, ho⟩ | ⟨-, ho⟩ <;> rw [effect, ho]
    · exact hi
    · exact fun hstopped => absurd (by simp) hstopped
  | send c ret =>
    obtain ⟨call, -, -, -, mtx, hs⟩ := s.send_cases c ret he.1
    rw [effect, hs]
    exact hi
  | undo c =>
    simp only [effect, Channel.undo, goto, setCall, record]
    split <;> exact hi
  | recvTop =>
    simp only [effect, Channel.recvTop]
    split_ifs
    · exact fun hstopped => absurd (by simp) hstopped
    · exact fun _ => rfl
  | recvTake id body =>
    simp only [effect, Channel.recvTake, take, record, setBatch]
    split <;> exact fun hstopped => absurd (by simp) hstopped
  | recvFail | teardown => exact fun _ => rfl
  | recvNext => exact fun hstopped => absurd (by simp [effect]) hstopped
  | recvFailAll =>
    simp only [Enabled] at he
    simp only [effect, failAllPending, take, record, setBatch]
    exact fun _ => hi (by simp [he])
  | closeAll =>
    simp only [effect, failAllPending, take, record, setBatch]
    exact hi
  | recvFinish => exact fun _ => hi (by simp [he.1])
  | joinRecv => exact fun _ => hi (by rcases he.2 with hrecv | hrecv <;> simp [hrecv])
  | tick =>
    simp only [effect, Channel.tick, take, record, setBatch]
    split_ifs <;> exact hi
  | runDone w id =>
    simp only [effect, Channel.runDone, record, setBatch]
    split <;> exact hi
  | free w =>
    simp only [effect, Channel.free, record, setBatch]
    split <;> exact hi
  | _ => exact hi

structure Undialled (s t : Channel) : Prop where
  clientfd : t.clientfd = s.clientfd
  connectedHost : t.connectedHost = s.connectedHost
  connMtx : t.connMtx = s.connMtx
  joinable : t.recvThread = none ↔ s.recvThread = none
  destructor : t.destructor = s.destructor
  calls : ∀ d, Holds (s.calls d).pc → t.calls d = s.calls d

inductive DialStep (s : Channel) : Client.Action → Channel → Prop where
  | steady {a : Client.Action} {t : Channel} (ha : a.opening = none) (h : s.Undialled t)
      (hrunning : t.running = s.running) : DialStep s a t
  | ended {a : Client.Action} {t : Channel} (ha : a.opening = none) (h : s.Undialled t)
      (hrecv : s.recvThread ≠ none) (hrunning : t.running = false) : DialStep s a t
  | locked {c : ℕ} (hpc : (s.calls c).pc = .connecting) (hmtx : s.connMtx = none)
      (hnot : ¬ s.Connected (s.calls c).hostData) :
      DialStep s (.connect c) { s.goto c .joining with connMtx := some c, clientfd := none }
  | joined {c : ℕ} (hpc : (s.calls c).pc = .joining) (hrecv : s.recvThread ≠ none →
      (s.calls c).thread ≠ .recv) :
      DialStep s (.join c) { s.goto c .opening with recvThread := none, connectedHost := "" }
  | dialled {c : ℕ} (result : Opening) (hpc : (s.calls c).pc = .opening) :
      DialStep s (.openConnection c result) (s.openConnection c result)

lemma undialled_update {call : Call} (hcalls : t.calls = Function.update s.calls c call)
    (hpc : ¬ Holds (s.calls c).pc)
    (hfd : t.clientfd = s.clientfd) (hhost : t.connectedHost = s.connectedHost)
    (hmtx : t.connMtx = s.connMtx)
    (hrecv : t.recvThread = s.recvThread) (hd : t.destructor = s.destructor) : s.Undialled t := by
  refine ⟨hfd, hhost, hmtx, by rw [hrecv], hd, fun d hholds => ?_⟩
  have hdc : d ≠ c := by
    rintro rfl
    exact hpc hholds
  rw [hcalls, Function.update_of_ne hdc]

lemma undialled_rest (hcalls : t.calls = s.calls) (hfd : t.clientfd = s.clientfd)
    (hhost : t.connectedHost = s.connectedHost)
    (hmtx : t.connMtx = s.connMtx) (hrecv : t.recvThread = none ↔ s.recvThread = none)
    (hd : t.destructor = s.destructor) : s.Undialled t :=
      ⟨hfd, hhost, hmtx, hrecv, hd, fun d _ => by rw [hcalls]⟩

lemma dial_step (halive : s.destructor = .alive) (hnot : a ≠ .destroy) (hcalled : s.Called)
    (h : s.step env a = some t) :
    DialStep s a t := by
  obtain ⟨he, rfl⟩ := step_eq h
  cases a with
  | start parent =>
    have hout : ¬ Holds (s.calls s.started).pc := by simp [hcalled.absent s.started le_rfl, Holds]
    exact .steady rfl (undialled_update rfl hout rfl rfl rfl rfl rfl) rfl
  | prepare c inv =>
    simp only [Enabled] at he
    have hout : ¬ Holds (s.calls c).pc := by simp [he, Holds]
    rcases s.prepare_cases c env inv with hp | ⟨call, -, -, -, hp⟩ <;> rw [effect, hp] <;>
      exact .steady rfl (undialled_update rfl hout rfl rfl rfl rfl rfl) rfl
  | connect c =>
    by_cases hconn : s.Connected (s.calls c).hostData
    · simp only [effect, Channel.connect, hconn, if_true]
      exact .steady rfl (undialled_update rfl (by simp [he.1, Holds]) rfl rfl rfl rfl rfl) rfl
    · simp only [effect, Channel.connect, hconn, if_false]
      exact .locked he.1 he.2 hconn
  | join c =>
    simp only [effect, Channel.join]
    split_ifs with hself
    · exact .steady rfl (undialled_rest rfl rfl rfl rfl Iff.rfl rfl) rfl
    · exact .joined he.1 (fun hrecv hthread => hself ⟨hrecv, hthread⟩)
  | openConnection c result => exact .dialled result he
  | register c | sendFail c errno | fail c =>
    simp only [Enabled] at he
    exact .steady rfl (undialled_update rfl (by simp [he, Holds]) rfl rfl rfl rfl rfl) rfl
  | lockSend c | «return» c =>
    exact .steady rfl (undialled_update rfl (by simp [he.1, Holds]) rfl rfl rfl rfl rfl) rfl
  | send c ret =>
    obtain ⟨call, -, -, -, mtx, hs⟩ := s.send_cases c ret he.1
    rw [effect, hs]
    exact .steady rfl (undialled_update rfl (by simp [he.1, Holds]) rfl rfl rfl rfl rfl) rfl
  | undo c =>
    simp only [Enabled] at he
    simp only [effect, Channel.undo, goto, setCall, record]
    split <;> exact .steady rfl (undialled_update rfl (by simp [he, Holds]) rfl rfl rfl rfl rfl) rfl
  | recvTop =>
    simp only [Enabled] at he
    simp only [effect, Channel.recvTop]
    split_ifs
    · exact .steady rfl (undialled_rest rfl rfl rfl rfl (by simp [he]) rfl) rfl
    · exact .ended rfl (undialled_rest rfl rfl rfl rfl (by simp [he]) rfl) (by simp [he]) rfl
  | recvFail =>
    exact .ended rfl (undialled_rest rfl rfl rfl rfl (by simp [effect, he.1]) rfl)
      (by simp [he.1]) rfl
  | recvTake id body =>
    simp only [effect, Channel.recvTake, take, record, setBatch]
    split <;> exact .steady rfl (undialled_rest rfl rfl rfl rfl (by simp [he.1]) rfl) rfl
  | recvNext | recvFinish =>
    exact .steady rfl (undialled_rest rfl rfl rfl rfl (by simp [effect, he.1]) rfl) rfl
  | recvFailAll =>
    simp only [Enabled] at he
    simp only [effect, failAllPending, take, record, setBatch]
    exact .steady rfl (undialled_rest rfl rfl rfl rfl (by simp [he]) rfl) rfl
  | tick =>
    simp only [effect, Channel.tick, take, record, setBatch]
    split_ifs <;> exact .steady rfl (undialled_rest rfl rfl rfl rfl Iff.rfl rfl) rfl
  | runDone w id =>
    simp only [effect, Channel.runDone, record, setBatch]
    split <;> exact .steady rfl (undialled_rest rfl rfl rfl rfl Iff.rfl rfl) rfl
  | free w =>
    simp only [effect, Channel.free, record, setBatch]
    split <;> exact .steady rfl (undialled_rest rfl rfl rfl rfl Iff.rfl rfl) rfl
  | destroy => exact absurd rfl hnot
  | joinTimer | teardown | joinRecv | destroyed => exact absurd (halive.symm.trans he.1) (by decide)
  | closeAll => exact absurd (halive.symm.trans he) (by decide)
  | _ => exact .steady rfl (undialled_rest rfl rfl rfl rfl Iff.rfl rfl) rfl

/-- The fields of the connection while no call is in `ensureConnected`; a call that is in it has
not changed them yet. -/
structure Follows (s : Channel) (e : Endpoint) : Prop where
  running : e.running = s.running
  resting : s.connMtx = none → e.clientfd = s.clientfd ∧
      s.connectedHost = CallEnv.text e.connectedHost
  joinable : (∀ d, (s.calls d).pc ≠ .opening) → (e.joinable = true ↔ s.recvThread ≠ none)
  holding : ∀ c, s.connMtx = some c → ¬ (e.clientfd ≠ none ∧ e.running = true ∧
    CallEnv.text e.connectedHost = (s.calls c).hostData)
  opening : ∀ c, (s.calls c).pc = .opening → s.connectedHost = "" ∧
      ¬ (e.joinable = true ∧ (s.calls c).thread = .recv)

/-- The addresses are texts whose ports parse, and the destructor does not begin. -/
def Dialable (s : Channel) (a : Client.Action) : Prop :=
  a ≠ .destroy ∧ ∀ c result, a = .openConnection c result → ∃ hostData : HostData,
    (s.calls c).hostData = CallEnv.text hostData.bytes ∧
    (58 ∈ hostData.bytes → ipPort hostData.bytes ≠ none)

/-- What the steps of a channel come to where they decide what `ensureConnected` returns. -/
structure Answers (s : Channel) (e : Endpoint) (c : ℕ) (hostData : HostData) : Prop where
  reused : s.connMtx = none → (s.Connected (s.calls c).hostData ↔ e.Connected hostData.bytes)
  thrown : (s.calls c).pc = .joining → s.recvThread ≠ none → (s.calls c).thread = .recv →
    ∀ k, (e.ensureConnected k true hostData.bytes).1 = .thrown
  dialled : (s.calls c).pc = .opening → (58 ∈ hostData.bytes → ipPort hostData.bytes ≠ none) →
    ∀ result, s.Dials c result (e.ensureConnected (result.kernel s.links.length)
      (decide ((s.calls c).thread = .recv)) hostData.bytes)

lemma Locked.not_opening (hl : s.Locked) (h : s.connMtx = none) (d : ℕ) :
    (s.calls d).pc ≠ .opening := by
  intro hpc
  have hheld := (hl.holder d).mpr (.inr hpc)
  rw [h] at hheld
  cases hheld

lemma Follows.undialled (hf : s.Follows e) (hl : s.Locked) (hl' : t.Locked) (h : s.Undialled t)
    (he : e.running = t.running) :
    t.Follows e := by
  have hcalls : ∀ d, Holds (t.calls d).pc → t.calls d = s.calls d := by
    intro d hd
    refine h.calls d ((hl.holder d).mp ?_)
    rw [← h.connMtx]
    exact (hl'.holder d).mpr hd
  refine ⟨he, fun hmtx => ?_, fun hnone => ?_, fun c hmtx => ?_, fun c hpc => ?_⟩
  · rw [h.connMtx] at hmtx
    rw [h.clientfd, h.connectedHost]
    exact hf.resting hmtx
  · rw [Ne, h.joinable]
    refine hf.joinable (fun d hpc => hnone d ?_)
    rw [h.calls d (.inr hpc), hpc]
  · rw [hcalls c ((hl'.holder c).mp hmtx)]
    rw [h.connMtx] at hmtx
    exact hf.holding c hmtx
  · have hsame := hcalls c (.inr hpc)
    rw [hsame] at hpc ⊢
    rw [h.connectedHost]
    exact hf.opening c hpc

lemma Follows.not_connected (hf : s.Follows e) {hostData : HostData} (hmtx : s.connMtx = some c)
    (hhost : (s.calls c).hostData = CallEnv.text hostData.bytes) :
    ¬ e.Connected hostData.bytes := by
  rintro ⟨hfd, hrunning, hsame⟩
  exact hf.holding c hmtx ⟨hfd, hrunning, by rw [hhost, hsame]⟩

lemma Follows.answers (hf : s.Follows e) (hl : s.Locked) {hostData : HostData}
    (hhost : (s.calls c).hostData = CallEnv.text hostData.bytes) : s.Answers e c hostData := by
  refine ⟨fun hfree => ?_, fun hpc hrecv hthread k => ?_, fun hpc hport result => ?_⟩
  · obtain ⟨hfd, hsame⟩ := hf.resting hfree
    rw [Connected, Endpoint.Connected, hfd, hf.running, hsame, hhost, text_injective.eq_iff]
  · have hmtx : s.connMtx = some c := (hl.holder c).mpr (.inl hpc)
    have hfirst : ∀ d, (s.calls d).pc ≠ .opening := fun d hd => hrecv (hl.joined d hd)
    have hself : e.joinable = true ∧ true = true := ⟨(hf.joinable hfirst).mpr hrecv, rfl⟩
    rw [Endpoint.ensureConnected, if_neg (hf.not_connected hmtx hhost), if_pos hself]
  · have hmtx : s.connMtx = some c := (hl.holder c).mpr (.inr hpc)
    obtain ⟨-, hself⟩ := hf.opening c hpc
    rw [Endpoint.ensureConnected, if_neg (hf.not_connected hmtx hhost),
      if_neg (by simpa using hself)]
    exact dials_openConnection hhost hport result

lemma Follows.dialled (hf : s.Follows e) (hl : s.Locked) (hstop : s.Stopped) {result : Opening}
    {hostData : HostData}
    (hpc : (s.calls c).pc = .opening) (hhost : (s.calls c).hostData = CallEnv.text hostData.bytes)
    (hport : 58 ∈ hostData.bytes → ipPort hostData.bytes ≠ none)
    (hl' : (s.openConnection c result).Locked) :
    (s.openConnection c result).Follows
      (e.ensureConnected (result.kernel s.links.length) (decide ((s.calls c).thread = .recv))
        hostData.bytes).2 := by
  have hmtx : s.connMtx = some c := (hl.holder c).mpr (.inr hpc)
  have hclosed : s.clientfd = none := hl.closed (by simp [hmtx])
  have hjoined : s.recvThread = none := hl.joined c hpc
  obtain ⟨hcleared, -⟩ := hf.opening c hpc
  have hdials := (hf.answers hl hhost).dialled hpc hport result
  have hmtx' : (s.openConnection c result).connMtx = none := by
    rcases s.openConnection_cases c result with ⟨reason, -, ho⟩ | ⟨-, ho⟩ <;> rw [ho]
  have hopen := fun d => hl'.not_opening hmtx' d
  generalize e.ensureConnected (result.kernel s.links.length)
    (decide ((s.calls c).thread = .recv)) hostData.bytes = dialled at hdials
  cases hdials with
  | failed reason htext h =>
    have hstopped : s.running = false := hstop (by simp [hjoined])
    rw [h] at hopen hmtx' ⊢
    refine ⟨hstopped.symm, fun _ => ⟨hclosed.symm, hcleared⟩,
      fun _ => by simp [failWith, setCall, hjoined], ?_, ?_⟩
    · exact fun d hd => by cases hd
    · exact fun d hd => absurd hd (hopen d)
  | connected hhost' h =>
    rw [h] at hopen hmtx' ⊢
    refine ⟨rfl, fun _ => ⟨rfl, hhost'⟩, fun _ => by simp, ?_, ?_⟩
    · exact fun d hd => by cases hd
    · exact fun d hd => absurd hd (hopen d)

lemma Follows.ended (hf : s.Follows e) (hl : s.Locked) (hl' : t.Locked) (h : s.Undialled t)
    (hrunning : t.running = false) : t.Follows { e with running := false } := by
  have hfollows : ({ s with running := false } : Channel).Follows { e with running := false } :=
    ⟨rfl, hf.resting, hf.joinable, fun c _ hconn => (by cases hconn.2.1), hf.opening⟩
  have hlocked : ({ s with running := false } : Channel).Locked :=
    ⟨hl.holder, hl.closed, hl.joined⟩
  have hkept : ({ s with running := false } : Channel).Undialled t :=
    ⟨h.clientfd, h.connectedHost, h.connMtx, h.joinable, h.destructor, h.calls⟩
  exact hfollows.undialled hlocked hl' hkept hrunning.symm

lemma Follows.locked (hf : s.Follows e) (hl : s.Locked) (hmtx : s.connMtx = none)
    (hnot : ¬ s.Connected (s.calls c).hostData) :
    ({ s.goto c .joining with connMtx := some c, clientfd := none } : Channel).Follows e := by
  refine ⟨hf.running, fun hfree => (by cases hfree), fun _ => ?_, fun d hd => ?_,
    fun d hpc => ?_⟩
  · exact hf.joinable (hl.not_opening hmtx)
  · cases hd
    obtain ⟨hfd, hhost⟩ := hf.resting hmtx
    rintro ⟨hopen, hrunning, hsame⟩
    refine hnot ⟨hfd ▸ hopen, hf.running ▸ hrunning, ?_⟩
    rw [hhost, hsame]
    simp [goto, setCall]
  · exfalso
    by_cases hd : d = c
    · simp [goto, setCall, hd] at hpc
    · exact hl.not_opening hmtx d (by simpa [goto, setCall, hd] using hpc)

lemma Follows.joined (hf : s.Follows e) (hl : s.Locked) (hpc : (s.calls c).pc = .joining)
    (hrecv : s.recvThread ≠ none → (s.calls c).thread ≠ .recv) :
    ({ s.goto c .opening with recvThread := none, connectedHost := "" } : Channel).Follows e := by
  have hmtx : s.connMtx = some c := (hl.holder c).mpr (.inl hpc)
  have hfirst : ∀ d, (s.calls d).pc ≠ .opening := by
    intro d hd
    have hheld := (hl.holder d).mpr (.inr hd)
    rw [hmtx] at hheld
    cases hheld
    rw [hpc] at hd
    cases hd
  refine ⟨hf.running, fun hfree => ?_, fun hnone => ?_, fun d hd => ?_,
    fun d hpc' => ⟨rfl, ?_⟩⟩
  · exact absurd (hmtx.symm.trans hfree) (by simp)
  · exact absurd (by simp [goto, setCall]) (hnone c)
  · have hheld := hf.holding d hd
    by_cases hdc : d = c <;> simpa [goto, setCall, hdc] using hheld
  · have hdc : d = c := by
      by_contra hne
      exact hfirst d (by simpa [goto, setCall, hne] using hpc')
    subst hdc
    rintro ⟨hjoinable, hthread⟩
    refine hrecv ((hf.joinable hfirst).mp hjoinable) ?_
    simpa [goto, setCall] using hthread

lemma Follows.step (hf : s.Follows e) (hs : s.Sound) (ht : t.Sound) (hstop : s.Stopped)
    (halive : s.destructor = .alive)
    (hok : s.Dialable a) (h : s.step env a = some t) :
    t.destructor = .alive ∧ ∃ es e', Run Endpoint.step Any e es e' ∧ t.Follows e' ∧
      List.Forall₂ Opening.Agrees a.opening.toList (es.filterMap Endpoint.Action.kernel) := by
  obtain ⟨hnot, hparse⟩ := hok
  have hl := hs.locked
  have hl' := ht.locked
  cases dial_step halive hnot hs.called h with
  | steady ha hkept hrunning =>
    rw [ha]
    exact ⟨hkept.destructor.trans halive, [], e, .nil, hf.undialled hl hl' hkept
      (hf.running.trans hrunning.symm), .nil⟩
  | ended ha hkept hrecv hrunning =>
    have hjoinable : e.joinable = true :=
      (hf.joinable (fun d hpc => hrecv (hl.joined d hpc))).mpr hrecv
    have hends : Endpoint.step e .recvLoopEnds = some { e with running := false } :=
      if_pos hjoinable
    rw [ha]
    exact ⟨hkept.destructor.trans halive, _, _, .cons trivial hends .nil,
      hf.ended hl hl' hkept hrunning, .nil⟩
  | locked hpc hmtx hconn => exact ⟨halive, [], e, .nil, hf.locked hl hmtx hconn, .nil⟩
  | joined hpc hrecv => exact ⟨halive, [], e, .nil, hf.joined hl hpc hrecv, .nil⟩
  | @dialled c result hpc =>
    obtain ⟨hostData, hhost, hport⟩ := hparse c result rfl
    have halive' : (s.openConnection c result).destructor = .alive := by
      rcases s.openConnection_cases c result with ⟨reason, -, ho⟩ | ⟨-, ho⟩ <;> rw [ho] <;>
        exact halive
    exact ⟨halive', [.ensure _ _ hostData], _, .cons trivial rfl .nil,
      hf.dialled hl hstop hpc hhost hport hl', .cons ⟨_, rfl⟩ .nil⟩

/-- The three steps that `ensureConnected` takes, with whatever other threads do in between,
come to what calls of it do that go through at once, one for each attempt to connect and with the
same answers of the kernel: the fields are as after these calls, and so is what is returned. -/
theorem ensureConnected_atomic (h : Run (Channel.step env) Dialable constructed as s) :
    ∃ es e, Run Endpoint.step Any {} es e ∧
      List.Forall₂ Opening.Agrees (as.filterMap Client.Action.opening)
        (es.filterMap Endpoint.Action.kernel) ∧
      s.Follows e ∧
      ∀ c (hostData : HostData), (s.calls c).hostData = CallEnv.text hostData.bytes →
        s.Answers e c hostData := by
  have hinv : s.Stopped ∧ s.destructor = .alive ∧ ∃ es e, Run Endpoint.step Any {} es e ∧
      List.Forall₂ Opening.Agrees (as.filterMap Client.Action.opening)
        (es.filterMap Endpoint.Action.kernel) ∧ s.Follows e := by
    induction h with
    | nil =>
      refine ⟨fun _ => rfl, rfl, [], {}, .nil, .nil, rfl, fun _ => ⟨rfl, rfl⟩,
        fun _ => by simp [constructed], ?_, ?_⟩
      · exact fun c hc => by cases hc
      · exact fun c hc => by cases hc
    | @snoc bs u v a hr hok hstep ih =>
      obtain ⟨hstop, halive, es, e, hrun, hall, hf⟩ := ih
      have hv : v.Sound := sound_run (.snoc hr hok hstep)
      obtain ⟨halive', es', e', hrun', hf', hone⟩ :=
        hf.step (sound_run hr) hv hstop halive hok hstep
      refine ⟨hstop.step hstep, halive', es ++ es', e', hrun.append hrun', ?_, hf'⟩
      have hlast : [a].filterMap Client.Action.opening = a.opening.toList := by
        cases ha : a.opening <;> simp [ha]
      rw [List.filterMap_append, List.filterMap_append, hlast]
      exact List.rel_append hall hone
  obtain ⟨-, -, es, e, hrun, hall, hf⟩ := hinv
  exact ⟨es, e, hrun, hall, hf, fun c hostData hhost => hf.answers (sound_run h).locked hhost⟩

def sampled (s : Channel) : Client.Action → Bool
  | .destroy => false
  | .openConnection c _ => (s.calls c).hostData ∈ ["10.0.0.1:80", "10.0.0.2:80"]
  | _ => true

lemma dialable_of_sampled (s : Channel) (a : Client.Action) (h : s.sampled a = true) :
    s.Dialable a := by
  refine ⟨fun ha => (by cases ha; cases h), ?_⟩
  rintro c result rfl
  have hhost : (s.calls c).hostData = "10.0.0.1:80" ∨ (s.calls c).hostData = "10.0.0.2:80" := by
    simpa [sampled] using h
  rcases hhost with hhost | hhost <;> rw [hhost]
  · exact ⟨⟨text "10.0.0.1:80", by decide⟩, by decide, fun _ => by decide⟩
  · exact ⟨⟨text "10.0.0.2:80", by decide⟩, by decide, fun _ => by decide⟩

theorem ensureConnected_atomic_sample :
    ∃ t es e, exec (Channel.step sampleEnv) constructed sparingRun = some t ∧
    Run Endpoint.step Any {} es e ∧ (es.filterMap Endpoint.Action.kernel).length = 2 ∧
      e.running = true ∧ e.clientfd = some 1 ∧
      CallEnv.text e.connectedHost = "10.0.0.2:80" := by
  obtain ⟨t, ht, hd⟩ : ∃ t, exec (Channel.step sampleEnv) constructed sparingRun = some t ∧
      decide (t.connMtx = none ∧ t.running = true ∧ t.clientfd = some 1 ∧
        t.connectedHost = "10.0.0.2:80") = true :=
    exec_any (by decide +kernel)
  obtain ⟨hmtx, hrunning, hfd, hhost⟩ := of_decide_eq_true hd
  have hrun : Run (Channel.step sampleEnv) (fun s a => s.sampled a = true) constructed
      sparingRun t :=
    .of_exec ht (by decide +kernel)
  obtain ⟨es, e, hr, hall, hf, -⟩ := ensureConnected_atomic (hrun.weaken dialable_of_sampled)
  obtain ⟨hfd', hhost'⟩ := hf.resting hmtx
  have htwo : (sparingRun.filterMap Client.Action.opening).length = 2 := by decide
  exact ⟨t, es, e, ht, hr, hall.length_eq.symm.trans htwo, hf.running.trans hrunning,
    hfd'.trans hfd, hhost'.symm.trans hhost⟩

end Channel

end KimRpc.Client
