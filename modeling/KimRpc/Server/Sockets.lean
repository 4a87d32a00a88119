import KimRpc.Server.SocketIsolation

/-! Who owns an open socket. Each accepted socket is named by one descriptor until it is
closed, and the descriptor belongs to an open connection or to an accept that the loop
has not come to. This holds however descriptors are used again. -/

namespace KimRpc.Server.Reactor

open Library.Runs Wire

def arrivals (s : Reactor) : List ℕ := s.cq.filterMap Cqe.arrival

structure Owned (s : Reactor) : Prop where
  sole : ∀ fd fd' k, s.files fd = some k → s.files fd' = some k → fd = fd'
  bounded : ∀ fd k, s.files fd = some k → k < s.accepts
  old : ∀ p < s.mgr.allConns, (s.ctx p).socket < s.accepts
  distinct : ∀ p q, p < s.mgr.allConns → q < s.mgr.allConns → (s.ctx p).socket = (s.ctx q).socket →
      p = q
  owned : ∀ p < s.mgr.allConns, ∀ fd, s.files fd = some (s.ctx p).socket → s.find fd = some p
  attended : ∀ fd k, s.files fd = some k → s.find fd ≠ none ∨ fd ∈ s.arrivals

variable {D : Decoding} {s t : Reactor} {p : ℕ}

lemma Quiet.owned (hq : Quiet s t) (hm : s.Mapped) (h : s.Owned) : t.Owned where
  sole fd fd' k hk hk' := h.sole fd fd' k (hq.opened hk) (hq.opened hk')
  bounded fd k hk := by
    rw [hq.accepts]
    exact h.bounded fd k (hq.opened hk)
  old p hp := by
    rw [hq.socket, hq.accepts]
    exact h.old p (hq.allConns ▸ hp)
  distinct p q hp hp' heq := by
    rw [hq.socket, hq.socket] at heq
    exact h.distinct p q (hq.allConns ▸ hp) (hq.allConns ▸ hp') heq
  owned p hp fd hk := by
    rw [hq.socket] at hk
    exact hq.linked_found hm (h.owned p (hq.allConns ▸ hp) fd (hq.opened hk)) hk
  attended fd k hk := by
    rcases h.attended fd k (hq.opened hk) with hfound | harrived
    · obtain ⟨p, hp⟩ := Option.ne_none_iff_exists'.mp hfound
      rw [hq.linked_found hm hp hk]
      exact .inl (by simp)
    · rw [arrivals, hq.cq]
      exact .inr harrived

lemma Owned.accepted {o : Op} {i fd : ℕ} (h : s.Owned) (hi : s.ops[i]? = some o)
    (hop : o.sqe.op = .accept) :
    ({ s.complete i fd [] with
      files := Function.update s.files fd (some s.accepts)
      accepts := s.accepts + 1 } : Reactor).Owned := by
  have hnew : ∀ fd' k, Function.update s.files fd (some s.accepts) fd' = some k →
      fd' = fd ∧ k = s.accepts ∨ fd' ≠ fd ∧ s.files fd' = some k := by
    intro fd' k hk
    by_cases heq : fd' = fd
    · subst heq
      rw [Function.update_self] at hk
      exact .inl ⟨rfl, (Option.some.inj hk).symm⟩
    · rw [Function.update_of_ne heq] at hk
      exact .inr ⟨heq, hk⟩
  simp only [complete, hi]
  refine { h with
    sole := fun fd' fd₂ k hk hk' => ?_, bounded := fun fd' k hk => ?_,
    old := fun p hp => (h.old p hp).trans (Nat.lt_succ_self _), owned := fun p hp fd' hk => ?_,
    attended := fun fd' k hk => ?_ }
  · rcases hnew _ k hk with ⟨heq, hlast⟩ | ⟨_, hold⟩ <;> rcases hnew _ k hk' with ⟨heq', hlast'⟩ |
      ⟨_, hold'⟩
    · exact heq.trans heq'.symm
    · exact absurd (h.bounded _ _ hold') (hlast ▸ lt_irrefl _)
    · exact absurd (h.bounded _ _ hold) (hlast' ▸ lt_irrefl _)
    · exact h.sole fd' fd₂ k hold hold'
  · rcases hnew _ k hk with ⟨_, rfl⟩ | ⟨_, hk⟩
    · exact Nat.lt_succ_self _
    · exact (h.bounded fd' k hk).trans (Nat.lt_succ_self _)
  · rcases hnew _ _ hk with ⟨_, hlast⟩ | ⟨_, hk⟩
    · have hlt : (s.ctx p).socket < s.accepts := h.old p hp
      exact absurd hlast hlt.ne
    · exact h.owned p hp fd' hk
  · rw [arrivals, List.filterMap_append]
    rcases hnew _ k hk with ⟨rfl, _⟩ | ⟨_, hk⟩
    · refine .inr (List.mem_append_right _ ?_)
      simp [Cqe.arrival, hop]
    · rcases h.attended fd' k hk with hfound | harrived
      · exact .inl hfound
      · exact .inr (List.mem_append_left _ harrived)

section acquire

variable {fd k : ℕ} (hs : s.view.Sound) (hfree : s.find fd = none) (hopen : s.files fd = some k)
include hs hfree hopen

lemma Owned.acquire (h : s.Owned) : (s.acquire fd).Owned := by
  have hv : s.view.Vacant s.mgr.idle.1 s.mgr.idle.2 := hs.vacant
  have hall := acquire_allConns (s := s) fd
  have hfind := acquire_find (s := s) fd
  have hsame : ∀ q ≠ s.mgr.idle.1, (s.acquire fd).ctx q = s.ctx q :=
    fun q hq => acquire_ctx_ne fd hq
  have hnew : ((s.acquire fd).ctx s.mgr.idle.1).socket = k := by
    rw [acquire_ctx, hopen, Option.getD_some]
  have hother : ∀ q < s.mgr.allConns, (s.ctx q).socket ≠ k := by
    rintro q hq rfl
    exact absurd (hfree.symm.trans (h.owned q hq fd hopen)) (by simp)
  generalize s.mgr.idle.1 = p at *
  generalize s.mgr.idle.2 = m at *
  refine { h with
    old := fun q hq => ?_, distinct := fun q q' hq hq' heq => ?_, owned := fun q hq fd' hk => ?_,
    attended := fun fd' k' hk => ?_ }
  · rw [hall] at hq
    by_cases hqp : q = p
    · rw [hqp, hnew]
      exact h.bounded fd k hopen
    · rw [hsame q hqp]
      exact h.old q (hv.old q hqp hq)
  · rw [hall] at hq hq'
    by_cases hqp : q = p <;> by_cases hqp' : q' = p
    · exact hqp.trans hqp'.symm
    · rw [hqp, hnew, hsame q' hqp'] at heq
      exact absurd heq.symm (hother q' (hv.old q' hqp' hq'))
    · rw [hqp', hnew, hsame q hqp] at heq
      exact absurd heq (hother q (hv.old q hqp hq))
    · rw [hsame q hqp, hsame q' hqp'] at heq
      exact h.distinct q q' (hv.old q hqp hq) (hv.old q' hqp' hq') heq
  · rw [hall] at hq
    rw [hfind]
    by_cases hqp : q = p
    · rw [hqp, hnew] at hk
      rw [if_pos (h.sole fd' fd k hk hopen), hqp]
    · rw [hsame q hqp] at hk
      have hfound := h.owned q (hv.old q hqp hq) fd' hk
      rw [if_neg, hfound]
      rintro rfl
      exact absurd (hfree.symm.trans hfound) (by simp)
  · rcases h.attended fd' k' hk with hfound | harrived
    · rw [hfind]
      split_ifs
      · exact .inl (by simp)
      · exact .inl hfound
    · exact .inr harrived

end acquire

lemma Owned.copyOut (e : Cqe) (h : s.Owned) : (s.copyOut e p).Owned := by
  have hsocket : ∀ q, ((s.copyOut e p).ctx q).socket = (s.ctx q).socket := by
    intro q
    unfold Reactor.copyOut
    split_ifs
    · have hctx :=
        ctx_modify_apply (s := s) (p := p) (fun ctx => { ctx with input := ctx.input ++ e.data }) q
      refine (congrArg ConnectionContext.socket hctx).trans ?_
      split_ifs <;> rfl
    · rfl
  have hrest : (s.copyOut e p).files = s.files ∧ (s.copyOut e p).accepts = s.accepts ∧
      (s.copyOut e p).mgr.allConns = s.mgr.allConns ∧ (s.copyOut e p).mgr.active = s.mgr.active ∧
        (s.copyOut e p).cq = s.cq := by
    unfold Reactor.copyOut
    split_ifs <;> exact ⟨rfl, rfl, rfl, rfl, rfl⟩
  obtain ⟨hfiles, haccepts, hall, hactive, hcq⟩ := hrest
  refine ⟨?_, ?_, ?_, ?_, ?_, ?_⟩
  · rw [hfiles]
    exact h.sole
  · rw [hfiles, haccepts]
    exact h.bounded
  · intro q hq
    rw [hsocket, haccepts]
    exact h.old q (hall ▸ hq)
  · intro q q' hq hq' heq
    rw [hsocket, hsocket] at heq
    exact h.distinct q q' (hall ▸ hq) (hall ▸ hq') heq
  · intro q hq fd hk
    rw [hsocket, hfiles] at hk
    rw [find, ConnectionManager.find, hactive]
    exact h.owned q (hall ▸ hq) fd hk
  · intro fd k hk
    rw [hfiles] at hk
    rw [find, ConnectionManager.find, hactive, arrivals, hcq]
    exact h.attended fd k hk

section steps

variable {e : Cqe} {rest : List Cqe}

lemma Owned.pop (h : s.Owned) (hcq : s.cq = e :: rest) (he : e.arrival = none) :
    ({ s with cq := rest } : Reactor).Owned := by
  refine { h with attended := fun fd k hk => ?_ }
  have hattended := h.attended fd k hk
  rw [arrivals, hcq, List.filterMap_cons_none he] at hattended
  exact hattended

lemma quiet_accepted (hs : s.view.Sound) (hcq : s.cq = e :: rest) (hop : e.op = .accept)
    (hresult : 0 ≤ e.result) :
    Quiet (({ s with cq := rest } : Reactor).acquire e.result.toNat)
      (({ s with cq := rest } : Reactor).handleCqe D e) := by
  have hplaced := placed hcq hs
  have hctx : e.ctx = none := by
    rw [hop] at hplaced
    cases hctx : e.ctx with
    | none => rfl
    | some q => simp [hctx, misplaced] at hplaced
  unfold handleCqe
  simp only [hctx, handler, hop, handleAccept, not_lt.mpr hresult, ↓reduceIte]
  exact (quiet_orClose (fun _ h => quiet_submitRecv h)).trans quiet_retryAccept

lemma Owned.handle (h : s.Owned) (hs : s.view.Sound) (hcq : s.cq = e :: rest) :
    (({ s with cq := rest } : Reactor).handleCqe D e).Owned := by
  have hmapped := mapped_of_sound hs
  have hm : ({ s with cq := rest } : Reactor).Mapped := hmapped
  by_cases harr : e.op = .accept ∧ 0 ≤ e.result
  · have hsome : e.arrival = some e.result.toNat := if_pos harr
    have hmem : e.result.toNat ∈ s.view.arrivals := by simp [view, hcq, hsome]
    obtain ⟨hfree, hfile⟩ := hs.world.arrived _ hmem
    obtain ⟨k, hopen⟩ := Option.ne_none_iff_exists'.mp hfile
    have hacquired := h.acquire hs hfree hopen
    have hnew := mapped_acquire hs hopen
    refine (quiet_accepted hs hcq harr.1 harr.2).owned hnew { hacquired with
      attended := fun fd k hk => ?_ }
    rcases hacquired.attended fd k hk with hfound | harrived
    · exact .inl hfound
    · have hmem : fd ∈ s.arrivals := harrived
      rw [arrivals, hcq, List.filterMap_cons_some hsome, List.mem_cons] at hmem
      rcases hmem with rfl | hmem
      · have hfind := acquire_find (s := { s with cq := rest }) e.result.toNat e.result.toNat
        rw [if_pos rfl] at hfind
        exact .inl (by simp [hfind])
      · exact .inr hmem
  · have hnone : e.arrival = none := if_neg harr
    cases starts_handleCqe (D := D) hs hcq with
    | accepted hop hresult => exact absurd ⟨hop, hresult⟩ harr
    | plain hctx hquiet => exact hquiet.owned hm (h.pop hcq hnone)
    | copied p hctx hquiet => exact hquiet.owned (mapped_copyOut e hm) ((h.pop hcq hnone).copyOut e)

lemma Owned.complete {o : Op} {i : ℕ} {result : ℤ} {data : Bytes} (h : s.Owned)
    (hi : s.ops[i]? = some o) :
    (s.complete i result data).Owned := by
  simp only [Reactor.complete, hi]
  refine { h with attended := fun fd k hk => ?_ }
  rcases h.attended fd k hk with hfound | harrived
  · exact .inl hfound
  · rw [arrivals, List.filterMap_append]
    exact .inr (List.mem_append_left _ harrived)

lemma Owned.step {a : Action} (h : s.Owned) (hs : s.view.Sound) (hstep : s.step D a = some t) :
    t.Owned := by
  obtain ⟨hen, rfl⟩ := step_cases hstep
  cases a with
  | enter n => exact { h with }
  | interrupted => exact { h with }
  | wake => exact quiet_retryDeferred.owned (mapped_of_sound hs) h
  | handle =>
    cases hcq : s.cq with
    | nil => exact absurd hcq hen.2
    | cons e rest =>
      simp only [effect, hcq]
      exact h.handle hs hcq
  | loop => exact { h with }
  | acceptDone i fd =>
    obtain ⟨⟨o, ho, hop, _⟩, _⟩ := hen
    exact h.accepted ho hop
  | recvDone i data =>
    obtain ⟨⟨o, ho, _⟩, _⟩ := hen
    have hcomplete : (s.complete i data.length data).Owned := h.complete ho
    simp only [effect]
    cases (s.ops[i]?).bind Op.socket with
    | none => exact h
    | some k => exact { hcomplete with }
  | sendDone i n =>
    obtain ⟨⟨o, ho, _⟩, _⟩ := hen
    exact h.complete ho
  | notifyDone i =>
    obtain ⟨⟨o, ho, _⟩, _⟩ := hen
    have hcomplete : (s.complete i 8 []).Owned := h.complete ho
    exact { hcomplete with }
  | opFail i result =>
    obtain ⟨o, ho⟩ := Option.ne_none_iff_exists'.mp hen.1
    exact h.complete ho
  | workerDone i responseStr =>
    simp only [effect, workerDone]
    cases s.tasks[i]? with
    | none => exact h
    | some task => exact { h with }
  | eventfdWrite => exact { h with }

end steps

lemma owned_listening : listening.Owned where
  sole := nofun
  bounded := nofun
  old := nofun
  distinct := nofun
  owned := nofun
  attended := nofun

lemma owned_run {as : List Action} (h : Run (Reactor.step D) Any listening as t) : t.Owned :=
  h.invariant_with (K := fun u => u.view.Sound) owned_listening (fun _ _ hr => sound_run hr)
    (fun _ _ _ hs _ hi _ hstep => hi.step hs hstep)

def Waiting (s : Reactor) (k : ℕ) : Prop := ∃ fd ∈ s.arrivals, s.files fd = some k

def Connected (s : Reactor) (k : ℕ) : Prop := ∃ p, s.Active p ∧ (s.ctx p).socket = k

def Closed (s : Reactor) (k : ℕ) : Prop := ∀ fd, s.files fd ≠ some k

/-- No socket is left open without an owner, and none has two. -/
theorem sockets_owned (D : Decoding) {as : List Action}
    (h : Run (Reactor.step D) Any listening as s) :
    (∀ k < s.accepts, ExactlyOne (s.Waiting k) (s.Connected k) (s.Closed k)) ∧
    (∀ k, s.accepts ≤ k → s.Closed k) ∧
    (∀ p q, s.Active p → s.Active q → (s.ctx p).socket = (s.ctx q).socket → p = q) ∧
    ∀ p, s.Active p → ∀ fd, s.files fd = some (s.ctx p).socket ↔ fd = (s.ctx p).fd := by
  have hs := sound_run h
  have ho := owned_run h
  have hm := mapped_of_sound hs
  have hactive : ∀ p, s.Active p → p < s.mgr.allConns ∧
      s.files (s.ctx p).fd = some (s.ctx p).socket := by
    intro p hp
    obtain ⟨hlt, _, hfile⟩ := hm _ p ((hp.mapped _).mpr rfl)
    exact ⟨hlt, hfile⟩
  refine ⟨fun k _ => ?_, fun k hk fd hfile => ?_, fun p q hp hq => ?_,
    fun p hp fd => ⟨fun hfile => ?_, ?_⟩⟩
  · by_cases hclosed : s.Closed k
    · refine .inr (.inr ⟨?_, ?_, hclosed⟩)
      · rintro ⟨fd, _, hfile⟩
        exact hclosed fd hfile
      · rintro ⟨p, hp, rfl⟩
        exact hclosed _ (hactive p hp).2
    · obtain ⟨fd, hfile⟩ : ∃ fd, s.files fd = some k := by simpa [Closed] using hclosed
      have hopen : s.Connected k ↔ s.find fd ≠ none := by
        constructor
        · rintro ⟨p, hp, rfl⟩
          rw [ho.owned p (hactive p hp).1 fd hfile]
          simp
        · intro hfound
          obtain ⟨p, hp⟩ := Option.ne_none_iff_exists'.mp hfound
          obtain ⟨_, _, hfile'⟩ := hm fd p hp
          refine ⟨p, (active_iff hs).mpr (hs.active_of_find hp).1, ?_⟩
          exact Option.some.inj (hfile'.symm.trans hfile)
      by_cases hfound : s.find fd = none
      · refine .inl ⟨?_, fun hconnected => hopen.mp hconnected hfound, hclosed⟩
        rcases ho.attended fd k hfile with hsome | harrived
        · exact absurd hfound hsome
        · exact ⟨fd, harrived, hfile⟩
      · refine .inr (.inl ⟨?_, hopen.mpr hfound, hclosed⟩)
        rintro ⟨fd', harrived, hfile'⟩
        rw [ho.sole fd' fd k hfile' hfile] at harrived
        exact hfound (hs.world.arrived fd harrived).1
  · exact absurd (ho.bounded fd k hfile) (not_lt.mpr hk)
  · exact ho.distinct p q (hactive p hp).1 (hactive q hq).1
  · exact ((hp.mapped fd).mp (ho.owned p (hactive p hp).1 fd hfile))
  · rintro rfl
    exact (hactive p hp).2

theorem sockets_owned_sample : ∃ t, exec (Reactor.step sampleDecoding) listening reuseRun = some t ∧
    t.accepts = 2 ∧
    ExactlyOne (t.Waiting 1) (t.Connected 1) (t.Closed 1) := by
  obtain ⟨t, ht, hd⟩ := exec_any (show (exec (Reactor.step sampleDecoding) listening reuseRun).any
    (fun t => decide (t.accepts = 2)) = true by decide)
  have haccepts : t.accepts = 2 := of_decide_eq_true hd
  have howned := (sockets_owned sampleDecoding (.of_exec ht (by decide))).1
  exact ⟨t, ht, haccepts, howned 1 (by omega)⟩

end KimRpc.Server.Reactor
