import KimRpc.Client.LinkStreams

/-! Which calls wrote to which connection. A call writes to one connection only, and not
more than its frame; so its request is on the wire at most once. -/

namespace KimRpc.Client.Channel

open Library.FramePieces Library.Runs Wire

variable {env : ChannelEnv} {s t : Channel} {a : Action} {c : ℕ} {owner : ℕ → Option ℕ}

def writing : List Phase := [.sending, .sent, .ended]

def Wrote (s : Channel) (k c : ℕ) (piece : Bytes) :
    Prop := ∃ link ∈ s.links[k]?, (c, piece) ∈ link.wire

structure Homed (s : Channel) : Prop where
  sole : ∀ k k' c p p', s.Wrote k c p → s.Wrote k' c p' → k = k'
  wrote : ∀ k c p, s.Wrote k c p → s.phase c ∈ writing ∧ p ≠ []
  shares : ∀ k : ℕ, ∀ link ∈ s.links[k]?, ∀ c, s.phase c ∈ writing →
      share link.wire c ≤ (s.calls c).written
  whole : ∀ c, s.phase c ∈ [Phase.sending, .sent] → (s.calls c).written ≤ (s.frame c).length

lemma Homed.silent (h : s.Homed)
    (hlinks : ∀ k : ℕ, ∀ link ∈ t.links[k]?, link.wire = [] ∨ link ∈ s.links[k]?)
    (hkeep : ∀ d, s.phase d ∈ writing → t.phase d ∈ writing ∧
      (t.calls d).written = (s.calls d).written)
    (hwhole : ∀ d, t.phase d ∈ [Phase.sending, .sent] → (t.calls d).written ≤ (t.frame d).length) :
    t.Homed := by
  have hwrote : ∀ k d p, t.Wrote k d p → s.Wrote k d p := by
    rintro k d p ⟨link, hl, hmem⟩
    rcases hlinks k link hl with hempty | hold
    · rw [hempty] at hmem
      cases hmem
    · exact ⟨link, hold, hmem⟩
  refine ⟨fun k k' d p p' hd hd' => ?_, fun k d p hd => ?_, fun k link hl d hd => ?_, hwhole⟩
  · exact h.sole k k' d p p' (hwrote _ _ _ hd) (hwrote _ _ _ hd')
  · obtain ⟨hlate, hne⟩ := h.wrote k d p (hwrote _ _ _ hd)
    exact ⟨(hkeep d hlate).1, hne⟩
  · rcases hlinks k link hl with hempty | hold
    · rw [hempty]
      exact Nat.zero_le _
    · by_cases hlate : s.phase d ∈ writing
      · rw [(hkeep d hlate).2]
        exact h.shares k link hold d hlate
      · rw [share_eq_zero]
        · exact Nat.zero_le _
        · rintro ⟨e, p⟩ he rfl
          exact hlate (h.wrote k _ p ⟨link, hold, he⟩).1

lemma Homed.moved (h : s.Homed) {call : Call} (hcalls : t.calls = Function.update s.calls c call)
    (hlinks : ∀ k : ℕ, ∀ link ∈ t.links[k]?, link.wire = [] ∨ link ∈ s.links[k]?)
    (hlate : s.phase c ∉ writing)
    (hwhole : call.pc.phase ∈ [Phase.sending, .sent] → call.written ≤ call.sendRpcStr.length) :
    t.Homed := by
  refine h.silent hlinks (fun d hd => ?_) (fun d hd => ?_)
  · have hdc : d ≠ c := by
      rintro rfl
      exact hlate hd
    rw [phase, hcalls, Function.update_of_ne hdc]
    exact ⟨hd, rfl⟩
  · rw [phase, hcalls] at hd
    rw [frame, hcalls]
    by_cases hdc : d = c
    · subst hdc
      rw [Function.update_self] at hd ⊢
      exact hwhole hd
    · rw [Function.update_of_ne hdc] at hd ⊢
      exact h.whole d hd

lemma Homed.send (h : s.Homed) (hi : s.Streamed owner) {fd ret : ℕ}
    (hpc : (s.calls c).pc = .sending)
    (hfd : s.clientfd = some fd) (hret : 0 < ret)
    (hle : (s.calls c).written + ret ≤ (s.calls c).sendRpcStr.length) :
    (s.send c ret).Homed := by
  have hphase : s.phase c = .sending := by rw [phase, hpc, CallPc.phase]
  have hlate : s.phase c ∈ writing := by simp [hphase, writing]
  obtain ⟨call, mtx, -, hframe, hwritten, hpc', hsend⟩ := wrote_eq ret hpc hle
  have hlate' : call.pc.phase ∈ writing := by
    rcases hpc' with ⟨hp, -⟩ | ⟨hp, -⟩ <;> simp [hp, CallPc.phase, writing]
  have hpiece : (s.piece c ret).length = ret := by
    simp only [piece, List.length_take, List.length_drop]
    omega
  have hhome : ∀ k p, s.Wrote k c p → k = fd := by
    rintro k p ⟨link, hl, hmem⟩
    have hpos : 0 < share link.wire c :=
      share_pos (e := (c, p)) hmem (h.wrote k c p ⟨link, hl, hmem⟩).2
    have hle := h.shares k link hl c hlate
    obtain ⟨_, _, link', hl', p', hmem'⟩ := hi.within (hi.midway c hphase (by omega) fd hfd)
    exact h.sole k fd c p p' ⟨link, hl, hmem⟩ ⟨link', hl', hmem'⟩
  rw [hsend]
  generalize hu : ({ s.setCall c call with links := s.write c ret, sendMtx := mtx } : Channel) = u
  have hcalls : u.calls = Function.update s.calls c call := hu ▸ rfl
  have hlinks : ∀ k, u.links[k]? = if k = fd then s.links[k]?.map
      (fun link => link.append c (s.piece c ret)) else s.links[k]? := by
    intro k
    rw [← hu]
    exact write_getElem? hfd c ret k
  have hself : u.phase c = call.pc.phase := by rw [phase, hcalls, Function.update_self]
  have hother : ∀ d ≠ c, u.phase d = s.phase d ∧ u.calls d = s.calls d := by
    intro d hd
    rw [phase, hcalls, Function.update_of_ne hd]
    exact ⟨rfl, rfl⟩
  have hwrote : ∀ k d p, u.Wrote k d p → s.Wrote k d p ∨ k = fd ∧ d = c ∧ p = s.piece c ret := by
    rintro k d p ⟨link, hl, hmem⟩
    rw [hlinks, Option.mem_def] at hl
    split_ifs at hl with hk
    · obtain ⟨old, hold, rfl⟩ := Option.map_eq_some_iff.mp hl
      rcases List.mem_append.mp hmem with hmem | hmem
      · exact .inl ⟨old, hold, hmem⟩
      · cases List.mem_singleton.mp hmem
        exact .inr ⟨hk, rfl, rfl⟩
    · exact .inl ⟨link, hl, hmem⟩
  refine ⟨fun k k' d p p' hd hd' => ?_, fun k d p hd => ?_, fun k link hl d hd => ?_,
    fun d hd => ?_⟩
  · rcases hwrote _ _ _ hd with hold | ⟨rfl, rfl, rfl⟩ <;> rcases hwrote _ _ _ hd' with hold' |
      ⟨rfl, heq, rfl⟩
    · exact h.sole k k' d p p' hold hold'
    · subst heq
      exact hhome k p hold
    · exact (hhome k' p' hold').symm
    · rfl
  · rcases hwrote _ _ _ hd with hold | ⟨rfl, rfl, rfl⟩
    · obtain ⟨hd, hne⟩ := h.wrote k d p hold
      refine ⟨?_, hne⟩
      by_cases hdc : d = c
      · rw [hdc, hself]
        exact hlate'
      · rw [(hother d hdc).1]
        exact hd
    · refine ⟨hself ▸ hlate', ?_⟩
      rw [← List.length_pos_iff]
      omega
  · rw [hlinks, Option.mem_def] at hl
    by_cases hdc : d = c
    · subst hdc
      rw [hcalls, Function.update_self, hwritten]
      split_ifs at hl with hk
      · obtain ⟨old, hold, rfl⟩ := Option.map_eq_some_iff.mp hl
        have hold := h.shares k old hold d hlate
        rw [Link.append, share_append]
        have hnew : share [(d, s.piece d ret)] d = ret := by simp [share, bytes, hpiece]
        omega
      · exact (h.shares k link hl d hlate).trans (Nat.le_add_right _ _)
    · rw [(hother d hdc).1] at hd
      rw [(hother d hdc).2]
      split_ifs at hl with hk
      · obtain ⟨old, hold, rfl⟩ := Option.map_eq_some_iff.mp hl
        have hnew : share [(c, s.piece c ret)] d = 0 := share_eq_zero (by simpa using Ne.symm hdc)
        rw [Link.append, share_append, hnew]
        exact h.shares k old hold d hd
      · exact h.shares k link hl d hd
  · by_cases hdc : d = c
    · subst hdc
      rw [frame, hcalls, Function.update_self, hwritten, hframe]
      exact hle
    · rw [(hother d hdc).1] at hd
      rw [frame, (hother d hdc).2]
      exact h.whole d hd

lemma Homed.step (h : s.Homed) (hs : s.Sound) (hi : s.Streamed owner)
    (hstep : s.step env a = some t) : t.Homed := by
  have hsame : ∀ k : ℕ, ∀ link ∈ s.links[k]?, link.wire = [] ∨ link ∈ s.links[k]? := fun _ _ => .inr
  cases conn_step hs.called hs.locked hstep with
  | steady hcalls hlinks hmtx hfd =>
    refine h.silent (by rw [hlinks]; exact hsame) (fun d hd => ?_) (fun d hd => ?_)
    · obtain ⟨hphase, hkeeps⟩ := (hcalls d).kept hd
      exact ⟨by rw [phase, hphase]; exact hd, hkeeps.written⟩
    · cases hcalls d with
      | same hphase hkeeps =>
        rw [frame, hkeeps.written, hkeeps.sendRpcStr]
        rw [phase, hphase] at hd
        exact h.whole d hd
      | outside _ hphase' => simp [phase] at hd hphase'; grind
      | failed _ hphase' => simp [phase, hphase'] at hd
  | @reused c hpc hconn =>
    exact h.moved (c := c) rfl hsame (by simp [phase, hpc, CallPc.phase, writing])
      (by simp [CallPc.phase])
  | @opened c hpc hhost =>
    rw [opened_eq hhost]
    refine h.moved (c := c) rfl (fun k link hl => ?_) (by simp [phase, hpc, CallPc.phase, writing])
      (by simp [CallPc.phase])
    have hl' : (s.links ++ [⟨(s.calls c).hostData, []⟩])[k]? = some link := hl
    rcases List.getElem?_append.symm.trans hl' with hk
    split_ifs at hk with hlt
    · exact .inr hk
    · exact .inl (by simp [List.mem_singleton.mp (List.mem_of_getElem? hk)])
  | @locked c hpc hmtx =>
    exact h.moved (c := c) rfl hsame (by simp [phase, hpc, CallPc.phase, writing]) (by simp)
  | @wrote c ret fd hpc hfd hret hle => exact h.send hi hpc hfd hret hle
  | @stopped c errno hpc =>
    have hc : s.phase c = .sending := by rw [phase, hpc]; rfl
    have hphase : ∀ d, (s.sendFail c errno).phase d = if d = c then .ended else s.phase d :=
      phase_update { s.calls c with pc := .undoing, error := some (.send errno) } rfl
    have hcalls : (s.sendFail c errno).calls =
      Function.update s.calls c { s.calls c with pc := .undoing, error := some (.send errno) } :=
        rfl
    refine h.silent hsame (fun d hd => ?_) (fun d hd => ?_)
    · rw [hphase, hcalls]
      by_cases hdc : d = c
      · subst hdc
        simp [writing]
      · rw [if_neg hdc, Function.update_of_ne hdc]
        exact ⟨hd, rfl⟩
    · rw [hphase] at hd
      split_ifs at hd with hdc
      · simp at hd
      · rw [frame, hcalls, Function.update_of_ne hdc]
        exact h.whole d hd

lemma homed_run {as : List Action}
    (h : Run (Channel.step env) (fun u a => u.keepsFrames a = true) constructed as t) :
    t.Homed := by
  refine h.invariant_with (K := fun u => u.Sound ∧ ∃ owner, u.Streamed owner) ?_
    (fun _ _ hr => ⟨sound_run hr, streamed_run hr⟩) ?_
  · exact ⟨by simp [Wrote, constructed], by simp [Wrote, constructed], by simp [constructed],
      by simp [constructed, phase, CallPc.phase]⟩
  · rintro u a v ⟨hs, owner, hi⟩ - h - hstep
    exact h.step hs hi hstep

section order

variable {k : ℕ} {link : Link} {done : List ℕ} {wire : List (ℕ × Bytes)}

lemma count_le_one {n m : ℕ} (hle : n * m ≤ m) (hpos : 0 < m) : n ≤ 1 := by
  by_contra hlt
  have hmul : 2 * m ≤ n * m := Nat.mul_le_mul_right m (by omega)
  omega

lemma Homed.nodup_done (h : s.Homed) (hl : s.links[k]? = some link)
    (hsub : ∀ c, share wire c ≤ share link.wire c)
    (hsent : ∀ e ∈ wire, s.phase e.1 = .sent) (howned : ∀ c ∈ done, ∃ piece, (c, piece) ∈ wire)
    (hshare : ∀ c, share wire c = done.count c * (s.frame c).length) :
    (done.filter (fun c => !(s.frame c).isEmpty)).Nodup := by
  rw [List.nodup_iff_count_le_one]
  intro c
  by_cases hmem : c ∈ done.filter (fun c => !(s.frame c).isEmpty)
  · obtain ⟨hdone, hne⟩ := List.mem_filter.mp hmem
    obtain ⟨piece, hpiece⟩ := howned c hdone
    have hphase : s.phase c = .sent := hsent (c, piece) hpiece
    have hle := h.shares k link hl c (by simp [hphase, writing])
    have hwhole := h.whole c (by simp [hphase])
    have hcount : done.count c * (s.frame c).length ≤ (s.frame c).length := by
      rw [← hshare]
      exact (hsub c).trans (hle.trans hwhole)
    have hpos : 0 < (s.frame c).length := List.length_pos_iff.mpr (by simpa using hne)
    exact (List.filter_sublist.count_le c).trans (count_le_one hcount hpos)
  · rw [List.count_eq_zero_of_not_mem hmem]
    exact Nat.zero_le 1

lemma Homed.order (h : s.Homed) (hi : s.Streamed owner) (hl : s.links[k]? = some link) :
    ∃ order : List ℕ, order.Nodup ∧
    (∀ c ∈ order, s.frame c ≠ [] ∧ ∃ piece, s.Wrote k c piece) ∧
    bytes link.wire <+: order.flatMap s.frame := by
  have hst := hi.links k link hl
  generalize hw : link.wire = wire at hst
  generalize owner k = own at hst
  cases hst with
  | whole hwhole hsent =>
    obtain ⟨done, hbytes, howned, hshare⟩ := hwhole.owners
    refine ⟨done.filter (fun c => !(s.frame c).isEmpty), ?_, fun c hc => ?_, ?_⟩
    · exact h.nodup_done hl (fun c => by rw [hw]) hsent howned hshare
    · obtain ⟨hdone, hne⟩ := List.mem_filter.mp hc
      obtain ⟨piece, hpiece⟩ := howned c hdone
      exact ⟨by simpa using hne, piece, link, hl, hw ▸ hpiece⟩
    · rw [flatMap_nonempty, hbytes, List.flatMap_def]
  | @cut wire d pieces hwhole hsent hp h0 hlt hphase =>
    obtain ⟨done, hbytes, howned, hshare⟩ := hwhole.owners
    have hlate : s.phase d ∈ writing := by
      simp only [List.mem_cons, List.not_mem_nil, or_false] at hphase
      rcases hphase with hphase | hphase <;> simp [hphase, writing]
    have htotal : ∀ c, share link.wire c =
        share wire c + if d = c then pieces.flatten.length else 0 := by
      intro c
      rw [hw, share_append, share_tagged]
    have hlen : pieces.flatten.length = (s.calls d).written := by
      rw [hp, List.length_take]
      omega
    have hnot : d ∉ done := by
      intro hd
      have hle := h.shares k link hl d hlate
      rw [htotal, if_pos rfl, hlen, hshare] at hle
      have hcount := List.count_pos_iff.mpr hd
      have hpos : 0 < done.count d * (s.frame d).length := Nat.mul_pos hcount (by omega)
      omega
    refine ⟨done.filter (fun c => !(s.frame c).isEmpty) ++ [d], ?_, fun c hc => ?_, ?_⟩
    · refine List.nodup_append.mpr ⟨?_, List.nodup_singleton d, ?_⟩
      · exact h.nodup_done hl (fun c => by rw [htotal]; exact Nat.le_add_right _ _) hsent howned
          hshare
      · rintro c hc c' hc' rfl
        rw [List.mem_singleton.mp hc'] at hc
        exact hnot (List.mem_filter.mp hc).1
    · rcases List.mem_append.mp hc with hc | hc
      · obtain ⟨hdone, hne⟩ := List.mem_filter.mp hc
        obtain ⟨piece, hpiece⟩ := howned c hdone
        exact ⟨by simpa using hne, piece, link, hl, hw ▸ List.mem_append_left _ hpiece⟩
      · rw [List.mem_singleton.mp hc]
        have hne : pieces ≠ [] := by
          rintro rfl
          simp at hlen
          omega
        obtain ⟨piece, hpiece⟩ := mem_tagged (i := d) hne
        refine ⟨?_, piece, link, hl, hw ▸ List.mem_append_right _ hpiece⟩
        rw [← List.length_pos_iff]
        omega
    · rw [bytes_append, bytes_tagged, hbytes, List.flatMap_append, flatMap_nonempty,
        List.flatMap_def]
      refine (List.prefix_append_right_inj _).mpr ?_
      rw [hp, List.flatMap_singleton]
      exact List.take_prefix _ _

/-- Which calls wrote to each connection, and in which order: each to one connection and once. -/
structure Ordered (s : Channel) (order : ℕ → List ℕ) : Prop where
  stream : ∀ k, ∀ link ∈ s.links[k]?, bytes link.wire <+: (order k).flatMap s.frame
  nodup : ∀ k, (order k).Nodup
  sole : ∀ k k' c, c ∈ order k → c ∈ order k' → k = k'
  begun : ∀ k, ∀ c ∈ order k, s.frame c ≠ [] ∧ s.phase c ∈ writing

lemma ordered_run {as : List Action}
    (h : Run (Channel.step env) (fun u a => u.keepsFrames a = true) constructed as t) :
    ∃ order, t.Ordered order := by
  have hhomed := homed_run h
  obtain ⟨owner, hi⟩ := streamed_run h
  have hlink : ∀ k : ℕ, ∃ order : List ℕ, order.Nodup ∧
      (∀ c ∈ order, t.frame c ≠ [] ∧ ∃ piece, t.Wrote k c piece) ∧
      ∀ link ∈ t.links[k]?, bytes link.wire <+: order.flatMap t.frame := by
    intro k
    cases hl : t.links[k]? with
    | none => exact ⟨[], List.nodup_nil, nofun, nofun⟩
    | some link =>
      obtain ⟨order, hnodup, hwrote, hstream⟩ := hhomed.order hi hl
      refine ⟨order, hnodup, hwrote, fun link' hl' => ?_⟩
      cases Option.some.inj hl'
      exact hstream
  choose order hnodup hwrote hstream using hlink
  refine ⟨order, hstream, hnodup, fun k k' c hc hc' => ?_, fun k c hc => ?_⟩
  · obtain ⟨_, p, hp⟩ := hwrote k c hc
    obtain ⟨_, p', hp'⟩ := hwrote k' c hc'
    exact hhomed.sole k k' c p p' hp hp'
  · obtain ⟨hne, p, hp⟩ := hwrote k c hc
    exact ⟨hne, (hhomed.wrote k c p hp).1⟩

end order

end KimRpc.Client.Channel
