import KimRpc.Library.FramePieces
import KimRpc.Client.Routing

/-! The bytes written to each connection, when sends are partial or fail and the
channel reconnects: whole request frames and at most one cut off at the end. -/

namespace KimRpc.Client.Channel

open Library.Runs Library.FramePieces

variable {env : ChannelEnv} {s t : Channel} {a : Action} {c : ℕ}

def frame (s : Channel) (c : ℕ) : Wire.Bytes := (s.calls c).sendRpcStr

/-- Nothing follows a frame that was cut off. -/
def Intact (s : Channel) : Prop :=
  ∀ link ∈ s.links, Framed s.frame link.wire ∧ Concatenated s.frame (bytes link.wire)

/-- No call sends on a connection on which another send failed within a frame, and no
connection is opened while a call is within its frame. -/
def keepsFrames (s : Channel) : Action → Bool
  | .send _ _ => ∀ fd ∈ s.clientfd, ∀ link ∈ s.links[fd]?, ∀ e ∈ link.wire, s.phase e.1 ≠ .ended
  | .openConnection c .connected => ':' ∈ (s.calls c).hostData.toList →
      ∀ d < s.started, s.phase d = .sending → (s.calls d).written = 0
  | _ => true

inductive Standing (s : Channel) : Option ℕ → List (ℕ × Wire.Bytes) → Prop
  | whole {wire} : Whole s.frame wire → (∀ e ∈ wire, s.phase e.1 = .sent) → Standing s none wire
  | cut {wire c pieces} : Whole s.frame wire → (∀ e ∈ wire, s.phase e.1 = .sent) →
      pieces.flatten = (s.frame c).take (s.calls c).written → 0 < (s.calls c).written →
      (s.calls c).written < (s.frame c).length → s.phase c ∈ [Phase.sending, .ended] →
      Standing s (some c) (wire ++ tagged c pieces)

lemma Standing.framed {owner : Option ℕ} {wire : List (ℕ × Wire.Bytes)}
    (h : s.Standing owner wire) :
    Framed s.frame wire := by
  cases h with
  | whole hw _ => exact ⟨wire, 0, [], (List.append_nil wire).symm, hw, List.nil_prefix⟩
  | cut hw _ hp _ _ _ => exact ⟨_, _, _, rfl, hw, hp ▸ List.take_prefix _ _⟩

lemma Standing.mono {owner : Option ℕ} {wire : List (ℕ × Wire.Bytes)} (h : s.Standing owner wire)
    (hsent : ∀ d, s.phase d = .sent → t.phase d = .sent ∧ t.frame d = s.frame d)
    (howner : ∀ d ∈ owner, s.phase d ∈ [Phase.sending, .ended] →
      t.phase d ∈ [Phase.sending, .ended] ∧
      t.frame d = s.frame d ∧
      (t.calls d).written = (s.calls d).written) : t.Standing owner wire := by
  cases h with
  | whole hw hs =>
    exact .whole (hw.congr (fun e he => (hsent e.1 (hs e he)).2))
      (fun e he => (hsent e.1 (hs e he)).1)
  | @cut wire c pieces hw hs hp h0 hlt hc =>
    obtain ⟨hphase, hframe, hwritten⟩ := howner c rfl hc
    refine .cut (hw.congr (fun e he => (hsent e.1 (hs e he)).2))
      (fun e he => (hsent e.1 (hs e he)).1) ?_ ?_ ?_ hphase
    · rw [hframe, hwritten, hp]
    · rwa [hwritten]
    · rwa [hframe, hwritten]

structure Streamed (s : Channel) (owner : ℕ → Option ℕ) : Prop where
  current : ∀ fd, s.clientfd = some fd → fd < s.links.length
  links : ∀ k link, s.links[k]? = some link → s.Standing (owner k) link.wire
  beyond : ∀ k, s.links.length ≤ k → owner k = none
  midway : ∀ c, s.phase c = .sending → 0 < (s.calls c).written → ∀ fd, s.clientfd = some fd →
      owner fd = some c
  owned : ∀ k c, owner k = some c → s.phase c = .sending → ∀ fd, s.clientfd = some fd → fd = k

variable {owner : ℕ → Option ℕ}

lemma Streamed.within (hi : s.Streamed owner) {k : ℕ} (hk : owner k = some c) :
    s.phase c ∈ [Phase.sending, .ended] ∧ 0 < (s.calls c).written ∧
      ∃ link, s.links[k]? = some link ∧ ∃ piece, (c, piece) ∈ link.wire := by
  by_cases hlt : k < s.links.length
  · have hl : s.links[k]? = some s.links[k] := List.getElem?_eq_getElem hlt
    have hst := hi.links k _ hl
    rw [hk] at hst
    generalize hw : s.links[k].wire = wire at hst
    cases hst with
    | @cut wire _ pieces _ _ hp h0 hlen hphase =>
      have hne : pieces ≠ [] := by
        rintro rfl
        have := congrArg List.length hp
        simp only [List.flatten_nil, List.length_nil, List.length_take] at this
        omega
      obtain ⟨piece, hpiece⟩ := mem_tagged (i := c) hne
      exact ⟨hphase, h0, _, hl, piece, hw ▸ List.mem_append_right _ hpiece⟩
  · rw [hi.beyond k (by omega)] at hk
    cases hk

lemma Streamed.silent (hi : s.Streamed owner)
    (hkeep : ∀ d, s.phase d ∈ [Phase.sending, .sent, .ended] → t.frame d = s.frame d ∧
      (t.calls d).written = (s.calls d).written ∧
      (t.phase d = s.phase d ∨ s.phase d = .sending ∧ t.phase d = .ended))
    (hnew : ∀ d, t.phase d = .sending → s.phase d = .sending ∨ s.phase d = .bound ∧
      (t.calls d).written = 0)
    (hlinks : t.links = s.links) (hfd : t.clientfd = s.clientfd ∨ t.clientfd = none) :
    t.Streamed owner := by
  have hfd' : ∀ fd, t.clientfd = some fd → s.clientfd = some fd := by
    intro fd hf
    rcases hfd with h | h
    · exact h ▸ hf
    · simp [h] at hf
  refine ⟨?_, ?_, ?_, ?_, ?_⟩
  · intro fd hf
    rw [hlinks]
    exact hi.current fd (hfd' fd hf)
  · intro k link hl
    rw [hlinks] at hl
    refine (hi.links k link hl).mono ?_ ?_
    · intro d hd
      obtain ⟨hframe, -, hphase | ⟨hphase, -⟩⟩ := hkeep d (by simp [hd])
      · exact ⟨hphase.trans hd, hframe⟩
      · simp [hd] at hphase
    · intro d _ hd
      have hmem : s.phase d ∈ [Phase.sending, .sent, .ended] := by
        simp only [List.mem_cons, List.not_mem_nil, or_false] at hd ⊢
        tauto
      obtain ⟨hframe, hwritten, hphase | ⟨-, hphase⟩⟩ := hkeep d hmem
      · exact ⟨hphase ▸ hd, hframe, hwritten⟩
      · exact ⟨by simp [hphase], hframe, hwritten⟩
  · intro k hk
    exact hi.beyond k (hlinks ▸ hk)
  · intro c hc h0 fd hf
    rcases hnew c hc with hs | ⟨-, hw⟩
    · obtain ⟨-, hwritten, -⟩ := hkeep c (by simp [hs])
      exact hi.midway c hs (hwritten ▸ h0) fd (hfd' fd hf)
    · omega
  · intro k c hk hc fd hf
    rcases hnew c hc with hs | ⟨hs, -⟩
    · exact hi.owned k c hk hs fd (hfd' fd hf)
    · have hphase := (hi.within hk).1
      simp [hs] at hphase

lemma Streamed.open (hi : s.Streamed owner) (link : Link) (hwire : link.wire = [])
    (hnone : ∀ d, s.phase d = .sending → (s.calls d).written = 0) (hcalls : t.calls = s.calls)
    (hlinks : t.links = s.links ++ [link])
    (hfd : t.clientfd = some s.links.length) :
    t.Streamed (Function.update owner s.links.length none) := by
  have hphase : t.phase = s.phase := by
    funext d
    rw [phase, phase, hcalls]
  have hframe : t.frame = s.frame := by
    funext d
    rw [frame, frame, hcalls]
  refine ⟨?_, ?_, ?_, ?_, ?_⟩
  · intro fd hf
    cases Option.some.inj (hfd.symm.trans hf)
    simp [hlinks]
  · intro k link' hl
    rw [hlinks] at hl
    by_cases hk : k = s.links.length
    · subst hk
      cases Option.some.inj (List.getElem?_concat_length.symm.trans hl)
      rw [Function.update_self, hwire]
      exact .whole .nil (by simp)
    · have hlt := (List.getElem?_eq_some_iff.mp hl).1
      rw [List.length_append, List.length_singleton] at hlt
      rw [List.getElem?_append_left (by omega)] at hl
      rw [Function.update_of_ne hk]
      refine (hi.links k link' hl).mono ?_ ?_
      · intro d hd
        exact ⟨hphase ▸ hd, by rw [hframe]⟩
      · intro d _ hd
        exact ⟨hphase ▸ hd, by rw [hframe], by rw [hcalls]⟩
  · intro k hk
    rw [hlinks, List.length_append, List.length_singleton] at hk
    rw [Function.update_of_ne (by omega)]
    exact hi.beyond k (by omega)
  · intro c hc h0
    rw [hphase] at hc
    rw [hcalls, hnone c hc] at h0
    omega
  · intro k c hk hc
    rw [hphase] at hc
    by_cases hkl : k = s.links.length
    · simp [hkl] at hk
    · rw [Function.update_of_ne hkl] at hk
      have h0 := (hi.within hk).2.1
      rw [hnone c hc] at h0
      omega

lemma Streamed.sending (hi : s.Streamed owner) (hm : s.Sender) {fd : ℕ} {link : Link}
    (hpc : s.phase c = .sending)
    (hfd : s.clientfd = some fd) (hl : s.links[fd]? = some link)
    (hok : ∀ e ∈ link.wire, s.phase e.1 ≠ .ended) :
    ∃ whole pieces, link.wire = whole ++ tagged c pieces ∧ Whole s.frame whole ∧
    (∀ e ∈ whole, s.phase e.1 = .sent) ∧
      pieces.flatten = (s.frame c).take (s.calls c).written := by
  have hst := hi.links fd link hl
  generalize hw : link.wire = wire at hst hok ⊢
  generalize ho : owner fd = own at hst
  cases hst with
  | whole hwhole hsent =>
    have h0 : (s.calls c).written = 0 := by
      by_contra hne
      have hm := hi.midway c hpc (by omega) fd hfd
      rw [ho] at hm
      cases hm
    exact ⟨wire, [], (List.append_nil wire).symm, hwhole, hsent, by simp [h0]⟩
  | @cut wire d pieces hwhole hsent hp _ _ hphase =>
    have hdc : d = c := by
      obtain ⟨-, -, link', hl', piece, hpiece⟩ := hi.within ho
      rw [hl, Option.some.injEq] at hl'
      subst hl'
      have hne := hok (d, piece) (hw ▸ hpiece)
      simp only [List.mem_cons, List.not_mem_nil, or_false] at hphase
      rcases hphase with hd | hd
      · exact hm.unique hpc hd
      · exact absurd hd hne
    subst hdc
    exact ⟨wire, pieces, rfl, hwhole, hsent, hp⟩

lemma Streamed.bound (hi : s.Streamed owner) {call : Call}
    (hcalls : t.calls = Function.update s.calls c call)
    (hc : s.phase c = .selecting) (hcall : call.pc.phase = .bound)
    (hlinks : t.links = s.links) (hfd : t.clientfd = s.clientfd ∨ t.clientfd = none) :
    t.Streamed owner := by
  have hself : t.phase c = .bound := by rw [phase, hcalls, Function.update_self, hcall]
  have hother : ∀ d ≠ c, t.calls d = s.calls d := by
    intro d hd
    rw [hcalls, Function.update_of_ne hd]
  have hsending : ∀ d, t.phase d = .sending ↔ s.phase d = .sending := by
    intro d
    by_cases hdc : d = c
    · simp [hdc, hself, hc]
    · rw [phase, hother d hdc, phase]
  refine hi.silent ?_ ?_ hlinks hfd
  · intro d hd
    have hdc : d ≠ c := by
      rintro rfl
      simp [hc] at hd
    simp [Channel.frame, phase, hother d hdc]
  · intro d hd
    exact .inl ((hsending d).mp hd)

lemma Streamed.wrote (hi : s.Streamed owner) (hm : s.Sender) {fd ret : ℕ}
    (hpc : (s.calls c).pc = .sending)
    (hfd : s.clientfd = some fd) (hret : 0 < ret)
    (hle : (s.calls c).written + ret ≤ (s.calls c).sendRpcStr.length)
    (hok : ∀ link ∈ s.links[fd]?, ∀ e ∈ link.wire, s.phase e.1 ≠ .ended) :
    ∃ owner', (s.send c ret).Streamed owner' := by
  have hphase : s.phase c = .sending := by rw [phase, hpc, CallPc.phase]
  obtain ⟨call, mtx, -, hframe, hwritten, hpc', hsend⟩ := wrote_eq ret hpc hle
  let t : Channel := { s.setCall c call with links := s.write c ret, sendMtx := mtx }
  have hcalls : t.calls = Function.update s.calls c call := rfl
  have hself : t.phase c = call.pc.phase := by rw [phase, hcalls, Function.update_self]
  have hother : ∀ d ≠ c, t.phase d = s.phase d ∧ t.frame d = s.frame d ∧
      (t.calls d).written = (s.calls d).written := by
    intro d hd
    simp [phase, frame, hcalls, hd]
  have hsending : ∀ d, t.phase d = .sending → d = c := by
    intro d hd
    by_contra hdc
    exact hdc (hm.unique hphase ((hother d hdc).1 ▸ hd))
  have hsent : ∀ d, s.phase d = .sent → t.phase d = .sent ∧ t.frame d = s.frame d := by
    intro d hd
    have hdc : d ≠ c := by
      rintro rfl
      simp [hd] at hphase
    obtain ⟨hp, hf, -⟩ := hother d hdc
    exact ⟨hp.trans hd, hf⟩
  have hlength : t.links.length = s.links.length := by simp [t, write, hfd]
  rw [hsend]
  refine ⟨Function.update owner fd (if call.pc = .sending then some c else none), ?_, ?_, ?_, ?_,
    ?_⟩
  · intro k hk
    exact hlength ▸ hi.current k hk
  · intro k link hl
    have hl' : (s.write c ret)[k]? = some link := hl
    rw [write_getElem? hfd] at hl'
    by_cases hk : k = fd
    · subst hk
      rw [if_pos rfl] at hl'
      obtain ⟨old, hold, rfl⟩ := Option.map_eq_some_iff.mp hl'
      obtain ⟨whole, pieces, hw, hwhole, hwsent, hp⟩ := hi.sending hm hphase hfd hold (hok old hold)
      have hwhole' : Whole t.frame whole := hwhole.congr (fun e he => (hsent e.1 (hwsent e he)).2)
      have hframe' : t.frame c = s.frame c := by
        rw [frame, hcalls, Function.update_self, hframe, frame]
      have hpieces : (pieces ++ [s.piece c ret]).flatten = (t.frame c).take call.written := by
        rw [List.flatten_append, List.flatten_singleton, hp, hframe', hwritten, List.take_add]
        rfl
      have hwire : (old.append c (s.piece c ret)).wire = whole ++
          tagged c (pieces ++ [s.piece c ret]) := by
        rw [Link.append, hw, tagged_snoc, List.append_assoc]
      rw [hwire, Function.update_self]
      have hwsent' : ∀ e ∈ whole, t.phase e.1 = .sent := fun e he => (hsent e.1 (hwsent e he)).1
      rcases hpc' with ⟨hpc', hlt, -⟩ | ⟨hpc', heq, -⟩
      · rw [if_pos hpc']
        have hw' : (t.calls c).written = call.written := by rw [hcalls, Function.update_self]
        have hphase' : t.phase c ∈ [Phase.sending, .ended] := by
          rw [hself, hpc']
          simp [CallPc.phase]
        refine .cut hwhole' hwsent' (hw' ▸ hpieces) (by rw [hw']; omega) ?_ hphase'
        rwa [hw', hframe', frame, ← hframe]
      · rw [if_neg (by simp [hpc'])]
        have hlen : call.written = (t.frame c).length := by rw [heq, hframe, hframe', frame]
        rw [hlen, List.take_length] at hpieces
        refine .whole (hwhole'.snoc (by simp) hpieces) ?_
        intro e he
        rcases List.mem_append.mp he with he | he
        · exact hwsent' e he
        · obtain ⟨p, -, rfl⟩ := List.mem_map.mp he
          rw [hself, hpc', CallPc.phase]
    · rw [if_neg hk] at hl'
      rw [Function.update_of_ne hk]
      refine (hi.links k link hl').mono hsent ?_
      intro d hd hdp
      have hdc : d ≠ c := by
        rintro rfl
        exact hk (hi.owned k d hd hphase fd hfd).symm
      obtain ⟨hp, hf, hw⟩ := hother d hdc
      exact ⟨hp ▸ hdp, hf, hw⟩
  · intro k hk
    have hlt := hi.current fd hfd
    have hk' : t.links.length ≤ k := hk
    rw [hlength] at hk'
    rw [Function.update_of_ne (by omega)]
    exact hi.beyond k hk'
  · intro d hd h0 k hk
    have hdc := hsending d hd
    subst hdc
    cases Option.some.inj (hfd.symm.trans hk)
    rw [Function.update_self, if_pos]
    rcases hpc' with ⟨hp, -⟩ | ⟨hp, -⟩
    · exact hp
    · rw [hself, hp] at hd
      cases hd
  · intro k d hk hd j hj
    cases Option.some.inj (hfd.symm.trans hj)
    have hdc := hsending d hd
    subst hdc
    by_cases hkf : k = fd
    · exact hkf.symm
    · rw [Function.update_of_ne hkf] at hk
      exact hi.owned k d hk hphase fd hfd

lemma Streamed.step (hi : s.Streamed owner) (hs : s.Sound) (hm : s.Sender)
    (hok : s.keepsFrames a = true)
    (h : s.step env a = some t) : ∃ owner', t.Streamed owner' := by
  cases conn_step hs.called hs.locked h with
  | steady hcalls hlinks hmtx hfd =>
    refine ⟨owner, hi.silent ?_ ?_ hlinks (hfd.imp_left And.left)⟩
    · intro d hd
      obtain ⟨hp, hkeeps⟩ := (hcalls d).kept hd
      exact ⟨hkeeps.sendRpcStr, hkeeps.written, .inl hp⟩
    · intro d hd
      exact .inl ((hcalls d).late hd (by simp)).1
  | @reused c hpc hconn =>
    exact ⟨owner, hi.bound rfl (by rw [phase, hpc]; rfl) rfl rfl (.inl rfl)⟩
  | @opened c hpc hhost =>
    rw [opened_eq hhost]
    have hu : ({ s.goto c .registering with connMtx := none, clientfd := none } : Channel).Streamed
        owner :=
      hi.bound rfl (by rw [phase, hpc]; rfl) rfl rfl (.inr rfl)
    refine ⟨_, hu.open ⟨(s.calls c).hostData, []⟩ rfl ?_ rfl rfl rfl⟩
    intro d hd
    rw [phase_update (c := c) { s.calls c with pc := .registering } rfl] at hd
    by_cases hdc : d = c
    · simp [hdc, CallPc.phase] at hd
    · rw [if_neg hdc] at hd
      simp only [goto, setCall, Function.update_of_ne hdc]
      by_cases hlt : d < s.started
      · exact of_decide_eq_true hok hhost d hlt hd
      · simp [phase, hs.called.absent d (by omega), CallPc.phase] at hd
  | @locked c hpc hmtx =>
    have hbound : s.phase c = .bound := by rw [phase, hpc]; rfl
    have hphase : ∀ d, (s.lockSend c).phase d = if d = c then .sending else s.phase d :=
      phase_update { s.calls c with pc := .sending, written := 0 } rfl
    have hcalls : (s.lockSend c).calls = Function.update s.calls c { s.calls c with
        pc := .sending, written := 0 } := rfl
    refine ⟨owner, hi.silent ?_ ?_ rfl (.inl rfl)⟩
    · intro d hd
      have hdc : d ≠ c := by
        rintro rfl
        simp [hbound] at hd
      rw [hphase, if_neg hdc, Channel.frame, hcalls, Function.update_of_ne hdc]
      exact ⟨rfl, rfl, .inl rfl⟩
    · intro d hd
      by_cases hdc : d = c
      · subst hdc
        exact .inr ⟨hbound, by rw [hcalls, Function.update_self]⟩
      · rw [hphase, if_neg hdc] at hd
        exact .inl hd
  | @wrote c ret fd hpc hfd hret hle =>
    refine hi.wrote hm hpc hfd hret hle ?_
    intro link hl
    exact of_decide_eq_true hok fd hfd link hl
  | @stopped c errno hpc =>
    have hc : s.phase c = .sending := by rw [phase, hpc]; rfl
    have hphase : ∀ d, (s.sendFail c errno).phase d = if d = c then .ended else s.phase d :=
      phase_update { s.calls c with pc := .undoing, error := some (.send errno) } rfl
    have hcalls : (s.sendFail c errno).calls =
      Function.update s.calls c { s.calls c with pc := .undoing, error := some (.send errno) } :=
        rfl
    have hnone : ∀ d, (s.sendFail c errno).phase d ≠ .sending := by
      intro d hd
      rw [hphase] at hd
      split_ifs at hd with hdc
      exact hdc (hm.unique hc hd)
    refine ⟨owner, hi.silent ?_ ?_ rfl (.inl rfl)⟩
    · intro d hd
      rw [hphase, Channel.frame, hcalls]
      by_cases hdc : d = c
      · rw [hdc, if_pos rfl, Function.update_self]
        exact ⟨rfl, rfl, .inr ⟨hc, rfl⟩⟩
      · rw [if_neg hdc, Function.update_of_ne hdc]
        exact ⟨rfl, rfl, .inl rfl⟩
    · intro d hd
      exact absurd hd (hnone d)

lemma streamed_run {as : List Action}
    (h : Run (Channel.step env) (fun u a => u.keepsFrames a = true) constructed as t) :
    ∃ owner, t.Streamed owner := by
  refine h.invariant_with (K := fun u => u.Sound ∧ u.Sender)
    (I := fun u => ∃ owner, u.Streamed owner) ?_
    (fun _ _ hr => ⟨sound_run hr, sender_run hr⟩) ?_
  · exact ⟨fun _ => none, by simp [constructed], by simp [constructed],
      fun _ _ => rfl, by simp [constructed, phase, CallPc.phase], by simp⟩
  · rintro u a v ⟨hs, hm⟩ - ⟨owner, hi⟩ hok hstep
    exact hi.step hs hm hok hstep

/-- When a connection is given up after a send failed within a frame, and none is opened
under a call within its frame, every connection carries whole frames and at most the
beginning of one more. -/
theorem requests_intact (env : ChannelEnv) {as : List Action} {t : Channel}
    (h : Run (Channel.step env) (fun u a => u.keepsFrames a = true) constructed as t) :
    t.Intact := by
  obtain ⟨owner, hi⟩ := streamed_run h
  intro link hl
  obtain ⟨k, hk⟩ := List.mem_iff_getElem?.mp hl
  have hf := (hi.links k link hk).framed
  exact ⟨hf, hf.concatenated⟩

def Blank (s : Channel) : Prop := ∀ c, s.started ≤ c → s.calls c = {}

lemma Blank.step (hi : s.Blank) (h : s.step env a = some t) : t.Blank := by
  have hbegun : ∀ c, (s.calls c).pc ≠ .absent → c < s.started := by
    intro c hc
    by_contra hn
    simp [hi c (by omega)] at hc
  intro d hd
  cases step_calls h with
  | idle hcalls hstarted =>
    rw [hcalls]
    exact hi d (hstarted ▸ hd)
  | started call _ _ hcalls hstarted =>
    rw [hcalls, Function.update_of_ne (by omega)]
    exact hi d (by omega)
  | moved c call hmoves hcalls hstarted =>
    have hc := hbegun c (by intro hc; simpa [hc, CallPc.next] using hmoves.pc)
    rw [hcalls, Function.update_of_ne (by omega)]
    exact hi d (by omega)
  | allocated c call hpc _ _ _ hcalls hstarted =>
    have hc := hbegun c (by simp [hpc])
    rw [hcalls, Function.update_of_ne (by omega)]
    exact hi d (by omega)

lemma blank_run {ok : Channel → Action → Prop} {as : List Action}
    (h : Run (Channel.step env) ok constructed as t) :
    t.Blank := h.invariant (fun _ _ => rfl) (fun _ _ _ hi _ hs => hi.step hs)

/-- A send is interrupted after four bytes, and the next call uses the same connection. -/
def interruptedRun : List Action :=
  [.start none, .prepare 0 (sampleInvocation "10.0.0.1:80"), .connect 0, .join 0,
    .openConnection 0 .connected,
    .register 0, .lockSend 0, .send 0 4, .sendFail 0 4, .undo 0, .start none,
    .prepare 1 (sampleInvocation "10.0.0.1:80"), .connect 1, .register 1, .lockSend 1, .send 1 12]

theorem interrupted_sample : ∃ t, Run (Channel.step sampleEnv) Any constructed interruptedRun t ∧
    ¬ t.Intact := by
  obtain ⟨t, ht, hd⟩ : ∃ t, exec (Channel.step sampleEnv) constructed interruptedRun = some t ∧
      decide (t.started = 2 ∧ ∃ link ∈ t.links, bytes link.wire ≠ [] ∧
        ∀ c < (2 : ℕ), ¬ t.frame c <+: bytes link.wire ∧ ¬ bytes link.wire <+: t.frame c) = true :=
          exec_any (by decide)
  obtain ⟨hstarted, link, hl, hne, hfront⟩ := of_decide_eq_true hd
  have hrun : Run (Channel.step sampleEnv) Any constructed interruptedRun t :=
    .of_exec ht (by decide)
  refine ⟨t, hrun, fun hi => ?_⟩
  obtain ⟨c, hc, hcf⟩ := (hi link hl).2.front hne
  have hlt : c < 2 := by
    by_contra hn
    apply hc
    rw [frame, blank_run hrun c (by omega)]
  obtain ⟨h1, h2⟩ := hfront c hlt
  exact hcf.elim h1 h2

theorem requests_intact_sample :
    ∃ t, exec (Channel.step sampleEnv) constructed sparingRun = some t ∧
    t.links.length = 2 ∧ t.Intact := by
  obtain ⟨t, ht, hd⟩ : ∃ t, exec (Channel.step sampleEnv) constructed sparingRun = some t ∧
      decide (t.links.length = 2) = true := exec_any (by decide)
  exact ⟨t, ht, of_decide_eq_true hd, requests_intact sampleEnv (.of_exec ht (by decide))⟩

end KimRpc.Client.Channel
