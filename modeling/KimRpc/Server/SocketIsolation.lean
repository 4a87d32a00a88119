import KimRpc.Server.ContextClasses

/-! Whether an operation reaches the socket it was prepared for. The entry in the
submission queue names a descriptor, which may be closed and given to another connection
before the kernel takes the entry. -/

namespace KimRpc.Server.Reactor

open Library.Runs Wire

def transit (cq : List Cqe) (p : ℕ) : Bytes :=
  (cq.filter (fun e => e.ctx = some p ∧ e.op = .recv ∧ 0 < e.result)).flatMap Cqe.data

/-- No accept completes with a descriptor that a queued receive or send names. -/
def unnamed (s : Reactor) : Action → Bool
  | .acceptDone _ fd =>
    s.sq.all (fun e => !(decide (e.op = .recv ∨ e.op = .send) && decide (e.fd = fd)))
  | _ => true

def Mapped (s : Reactor) : Prop :=
  ∀ fd p, s.find fd = some p → p < s.mgr.allConns ∧ (s.ctx p).fd = fd ∧
  s.files fd = some (s.ctx p).socket

structure Isolated (s : Reactor) : Prop where
  queued : ∀ e ∈ s.sq, ∀ p, e.ctx = some p → e.owner = (s.ctx p).socket ∧
      ∀ k, s.files e.fd = some k → k = e.owner
  taken : ∀ o ∈ s.ops, ∀ p, o.sqe.ctx = some p →
    o.sqe.owner = (s.ctx p).socket ∧ ∀ k, o.socket = some k → k = o.sqe.owner
  handed : ∀ o ∈ s.handed, ∀ p, o.sqe.ctx = some p → ∀ k, o.socket = some k → k = o.sqe.owner
  placed : ∀ o ∈ s.handed, misplaced (o.sqe.ctx, o.sqe.op) = false
  sole : ∀ fd fd' k, s.files fd = some k → s.files fd' = some k → fd = fd'
  bounded : ∀ fd k, s.files fd = some k → k < s.accepts
  old : ∀ p < s.mgr.allConns, (s.ctx p).socket < s.accepts
  distinct : ∀ p q, p < s.mgr.allConns → q < s.mgr.allConns → (s.ctx p).socket = (s.ctx q).socket →
      p = q
  owned : ∀ p < s.mgr.allConns, ∀ fd, s.files fd = some (s.ctx p).socket → s.find fd = some p
  fresh : ∀ fd k, s.find fd = none → s.files fd = some k → s.received k = [] ∧ s.fed k = []
  unborn : ∀ k, s.accepts ≤ k → s.received k = [] ∧ s.fed k = []
  flow : ∀ fd p, s.find fd = some p →
      s.received (s.ctx p).socket = s.fed (s.ctx p).socket ++ transit s.cq p
  pre : ∀ k, s.fed k <+: s.received k

variable {D : Decoding} {s t : Reactor} {p : ℕ}

lemma transit_cons (e : Cqe) (cq : List Cqe) (p : ℕ) : transit (e :: cq) p =
    (if e.ctx = some p ∧ e.op = .recv ∧ 0 < e.result then e.data else []) ++ transit cq p := by
  unfold transit
  rw [List.filter_cons]
  split_ifs <;> simp_all

lemma transit_snoc (cq : List Cqe) (e : Cqe) (p : ℕ) : transit (cq ++ [e]) p =
    transit cq p ++ if e.ctx = some p ∧ e.op = .recv ∧ 0 < e.result then e.data else [] := by
  have hlast := transit_cons e [] p
  unfold transit at *
  rw [List.filter_append, List.flatMap_append, hlast]
  simp

lemma mapped_of_sound (h : s.view.Sound) : s.Mapped := by
  intro fd p hp
  obtain ⟨ha, hfd⟩ := h.active_of_find hp
  have hopen : s.files (s.ctx p).fd = some (s.ctx p).socket := ha.serving.opened
  have hfd' : (s.ctx p).fd = fd := hfd
  rw [hfd'] at hopen
  exact ⟨(h.world.maps fd p hp).1, hfd', hopen⟩

lemma Quiet.found (hq : Quiet s t) {fd : ℕ} (h : t.find fd = some p) : s.find fd = some p := by
  rcases hq.find fd with hsame | hgone
  · rw [← hsame, h]
  · rw [hgone] at h
    cases h

lemma Quiet.opened (hq : Quiet s t) {fd k : ℕ} (h : t.files fd = some k) : s.files fd = some k := by
  rcases hq.files fd with hsame | hgone
  · rw [← hsame, h]
  · rw [hgone] at h
    cases h

lemma Quiet.linked_found (hq : Quiet s t) (hm : s.Mapped) {fd k : ℕ} (hp : s.find fd = some p)
    (hk : t.files fd = some k) : t.find fd = some p := by
  rcases hq.linked fd p hp (hm fd p hp).2.1 with hsame | hclosed
  · exact hsame
  · rw [hclosed] at hk
    cases hk

lemma Quiet.isolated (hq : Quiet s t) (hm : s.Mapped) (h : s.Isolated) : t.Isolated where
  queued e he p hctx := by
    rw [hq.socket]
    rcases hq.queued e he with hold | ⟨hnone, _⟩ | ⟨p', hctx', hfind, howner⟩
    · obtain ⟨howner, hfiles⟩ := h.queued e hold p hctx
      exact ⟨howner, fun k hk => hfiles k (hq.opened hk)⟩
    · rw [hctx] at hnone
      cases hnone
    · cases Option.some.inj (hctx.symm.trans hctx')
      refine ⟨howner, fun k hk => ?_⟩
      have hopen := (hm e.fd p hfind).2.2
      rw [hq.opened hk] at hopen
      exact (Option.some.inj hopen).trans howner.symm
  taken o ho p hctx := by
    rw [hq.socket]
    exact h.taken o (hq.ops ▸ ho) p hctx
  handed o ho := h.handed o (hq.handed ▸ ho)
  placed o ho := h.placed o (hq.handed ▸ ho)
  sole fd fd' k hk hk' := h.sole fd fd' k (hq.opened hk) (hq.opened hk')
  bounded fd k hk := by
    rw [hq.accepts]
    exact h.bounded fd k (hq.opened hk)
  old p hp := by
    rw [hq.socket, hq.accepts]
    exact h.old p (hq.allConns ▸ hp)
  distinct p q hp hp' heq := by
    rw [hq.socket, hq.socket] at heq
    exact h.distinct p q (hq.allConns ▸ hp) (hq.allConns ▸ hp') heq
  owned p hp fd hk := by
    rw [hq.socket] at hk
    exact hq.linked_found hm (h.owned p (hq.allConns ▸ hp) fd (hq.opened hk)) hk
  fresh fd k hnone hk := by
    rw [hq.received, hq.fed]
    refine h.fresh fd k ?_ (hq.opened hk)
    rw [Option.eq_none_iff_forall_ne_some]
    intro p hp
    have hfind := hq.linked_found hm hp hk
    rw [hnone] at hfind
    cases hfind
  unborn k hk := by
    rw [hq.received, hq.fed]
    exact h.unborn k (hq.accepts ▸ hk)
  flow fd p hp := by
    rw [hq.received, hq.fed, hq.socket, hq.cq]
    exact h.flow fd p (hq.found hp)
  pre k := by
    rw [hq.received, hq.fed]
    exact h.pre k

lemma placed_of_tag (h : s.view.Sound) {tag : Option ℕ × OpType} (hmem : tag ∈ s.tags) :
    misplaced tag = false := by
  have hkinds : s.tags.countP misplaced = 0 := h.world.kinds
  rw [List.countP_eq_zero] at hkinds
  simpa using hkinds tag hmem

lemma sqe_tag {e : Sqe} (he : e ∈ s.sq) : (e.ctx, e.op) ∈ s.tags :=
  List.mem_append_left _ (List.mem_append_left _ (List.mem_map_of_mem he))

lemma op_tag {o : Op} (ho : o ∈ s.ops) : (o.sqe.ctx, o.sqe.op) ∈ s.tags :=
  List.mem_append_left _ (List.mem_append_right _ (List.mem_map_of_mem ho))

lemma cqe_tag {e : Cqe} (he : e ∈ s.cq) : (e.ctx, e.op) ∈ s.tags :=
  List.mem_append_right _ (List.mem_map_of_mem he)

lemma Isolated.handOver (h : s.Isolated) (hs : s.view.Sound) (n : ℕ) : (s.handOver n).Isolated := by
  have hnew : ∀ o ∈ (s.sq.take n).map (fun e => (⟨e, s.files e.fd⟩ : Op)), ∃ e ∈ s.sq,
      o = ⟨e, s.files e.fd⟩ := by
    intro o ho
    obtain ⟨e, he, rfl⟩ := List.mem_map.mp ho
    exact ⟨e, List.mem_of_mem_take he, rfl⟩
  refine { h with
    queued := fun e he => ?_, taken := fun o ho p hctx => ?_, handed := fun o ho p hctx k hk => ?_,
    placed := fun o ho => ?_ }
  · exact h.queued e (List.mem_of_mem_drop he)
  · rcases List.mem_append.mp ho with hold | hlast
    · exact h.taken o hold p hctx
    · obtain ⟨e, he, rfl⟩ := hnew o hlast
      exact h.queued e he p hctx
  · rcases List.mem_append.mp ho with hold | hlast
    · exact h.handed o hold p hctx k hk
    · obtain ⟨e, he, rfl⟩ := hnew o hlast
      exact (h.queued e he p hctx).2 k hk
  · rcases List.mem_append.mp ho with hold | hlast
    · exact h.placed o hold
    · obtain ⟨e, he, rfl⟩ := hnew o hlast
      exact placed_of_tag hs (sqe_tag he)

lemma Isolated.complete {o : Op} {i : ℕ} {result : ℤ} {data : Bytes} (h : s.Isolated)
    (hi : s.ops[i]? = some o)
    (hbytes : ¬ (o.sqe.op = .recv ∧ 0 < result)) : (s.complete i result data).Isolated := by
  simp only [Reactor.complete, hi]
  refine { h with
      taken := fun o' ho' => h.taken o' (List.mem_of_mem_eraseIdx ho'), flow := fun fd p hp => ?_ }
  show _ = _ ++ transit (s.cq ++ [_]) p
  rw [transit_snoc, if_neg (fun hrecv => hbytes hrecv.2), List.append_nil]
  exact h.flow fd p hp

lemma Isolated.accepted {fd : ℕ} (h : s.Isolated)
    (hnamed : ∀ e ∈ s.sq, ∀ p, e.ctx = some p → e.fd ≠ fd) :
    ({ s with files := Function.update s.files fd (some s.accepts), accepts := s.accepts + 1 } :
      Reactor).Isolated := by
  have hnew : ∀ fd' k, Function.update s.files fd (some s.accepts) fd' = some k →
      fd' = fd ∧ k = s.accepts ∨ fd' ≠ fd ∧ s.files fd' = some k := by
    intro fd' k hk
    by_cases heq : fd' = fd
    · subst heq
      rw [Function.update_self] at hk
      exact .inl ⟨rfl, (Option.some.inj hk).symm⟩
    · rw [Function.update_of_ne heq] at hk
      exact .inr ⟨heq, hk⟩
  refine { h with
    queued := fun e he p hctx => ⟨(h.queued e he p hctx).1, fun k hk => ?_⟩,
    sole := fun fd' fd'' k hk hk' => ?_,
    bounded := fun fd' k hk => ?_, old := fun p hp => (h.old p hp).trans (Nat.lt_succ_self _),
    owned := fun p hp fd' hk => ?_, fresh := fun fd' k hnone hk => ?_,
    unborn := fun k hk => h.unborn k (Nat.le_of_succ_le hk) }
  · rcases hnew _ k hk with ⟨heq, _⟩ | ⟨_, hk⟩
    · exact absurd heq (hnamed e he p hctx)
    · exact (h.queued e he p hctx).2 k hk
  · rcases hnew _ k hk with ⟨heq, hlast⟩ | ⟨_, hold⟩ <;> rcases hnew _ k hk' with ⟨heq', hlast'⟩ |
      ⟨_, hold'⟩
    · exact heq.trans heq'.symm
    · exact absurd (h.bounded _ _ hold') (hlast ▸ lt_irrefl _)
    · exact absurd (h.bounded _ _ hold) (hlast' ▸ lt_irrefl _)
    · exact h.sole fd' fd'' k hold hold'
  · rcases hnew _ k hk with ⟨_, rfl⟩ | ⟨_, hk⟩
    · exact Nat.lt_succ_self _
    · exact (h.bounded fd' k hk).trans (Nat.lt_succ_self _)
  · rcases hnew _ _ hk with ⟨_, hlast⟩ | ⟨_, hk⟩
    · exact absurd (h.old p hp) (by show ¬ (s.ctx p).socket < _; exact hlast ▸ lt_irrefl _)
    · exact h.owned p hp fd' hk
  · rcases hnew _ k hk with ⟨_, rfl⟩ | ⟨_, hk⟩
    · exact h.unborn _ le_rfl
    · exact h.fresh fd' k hnone hk

lemma Isolated.received {o : Op} {i k : ℕ} {data : Bytes} (h : s.Isolated) (hs : s.view.Sound)
    (hi : s.ops[i]? = some o) (hop : o.sqe.op = .recv) (hk : o.socket = some k)
    (hdata : 0 < data.length) :
    ({ s.complete i data.length data with
      received := Function.update s.received k (s.received k ++ data) } : Reactor).Isolated := by
  have ho : o ∈ s.ops := List.mem_of_getElem? hi
  obtain ⟨p, hctx⟩ : ∃ p, o.sqe.ctx = some p := by
    have hplaced := placed_of_tag hs (op_tag ho)
    rw [hop] at hplaced
    cases hctx : o.sqe.ctx with
    | none => simp [hctx, misplaced] at hplaced
    | some p => exact ⟨p, rfl⟩
  have htag := op_tag ho
  rw [hctx] at htag
  have hlt := (tag_busy hs htag).1
  obtain ⟨howner, hsocket⟩ := h.taken o ho p hctx
  have hkp : k = (s.ctx p).socket := (hsocket k hk).trans howner
  have hm := mapped_of_sound hs
  have hbytes : (0 : ℤ) < data.length := by exact_mod_cast hdata
  simp only [Reactor.complete, hi]
  refine { h with
    taken := fun o' ho' => h.taken o' (List.mem_of_mem_eraseIdx ho'),
    fresh := fun fd k' hnone hk' => ?_,
    unborn := fun k' hk' => ?_, flow := fun fd q hq => ?_, pre := fun k' => ?_ }
  · have hne : k' ≠ k := by
      rintro rfl
      have hfind := h.owned p hlt fd (hkp ▸ hk')
      exact absurd (hnone.symm.trans hfind) (by simp)
    show Function.update s.received k _ k' = [] ∧ s.fed k' = []
    rw [Function.update_of_ne hne]
    exact h.fresh fd k' hnone hk'
  · have hne : k' ≠ k := by
      rintro rfl
      exact absurd (h.old p hlt) (by rw [← hkp]; exact not_lt.mpr hk')
    show Function.update s.received k _ k' = [] ∧ s.fed k' = []
    rw [Function.update_of_ne hne]
    exact h.unborn k' hk'
  · show Function.update s.received k (s.received k ++ data) (s.ctx q).socket =
      s.fed (s.ctx q).socket ++ transit (s.cq ++ [_]) q
    have hflow := h.flow fd q hq
    rw [transit_snoc]
    by_cases hqp : q = p
    · subst hqp
      rw [if_pos ⟨hctx, hop, hbytes⟩, hkp, Function.update_self, hflow, List.append_assoc]
    · have hne : (s.ctx q).socket ≠ k :=
        fun heq => hqp (h.distinct q p (hm fd q hq).1 hlt (heq.trans hkp))
      have hother : ¬ (o.sqe.ctx = some q ∧ o.sqe.op = .recv ∧ (0 : ℤ) < data.length) := by
        rintro ⟨hctx', _⟩
        exact hqp (Option.some.inj (hctx'.symm.trans hctx))
      rw [if_neg hother, Function.update_of_ne hne, List.append_nil, hflow]
  · show s.fed k' <+: Function.update s.received k _ k'
    by_cases heq : k' = k
    · subst heq
      rw [Function.update_self]
      exact (h.pre k').trans (List.prefix_append _ _)
    · rw [Function.update_of_ne heq]
      exact h.pre k'

lemma Isolated.plain {e : Cqe} {rest : List Cqe} (h : s.Isolated) (hcq : s.cq = e :: rest)
    (hbytes : ∀ fd p, s.find fd = some p → ¬ (e.ctx = some p ∧ e.op = .recv ∧ 0 < e.result)) :
    ({ s with cq := rest } : Reactor).Isolated := by
  refine { h with flow := fun fd p hp => ?_ }
  have hflow := h.flow fd p hp
  rw [hcq, transit_cons, if_neg (hbytes fd p hp), List.nil_append] at hflow
  exact hflow

lemma Isolated.fed_data {e : Cqe} {rest : List Cqe} (h : s.Isolated) (hs : s.view.Sound)
    (hcq : s.cq = e :: rest)
    (hctx : e.ctx = some p) (hfind : s.find (s.ctx p).fd = some p)
    (hrecv : e.op = .recv ∧ 0 < e.result) :
    ({ s with
      cq := rest
      fed := Function.update s.fed (s.ctx p).socket (s.fed (s.ctx p).socket ++ e.data) } :
        Reactor).Isolated := by
  have hm := mapped_of_sound hs
  have hlt := (hm _ p hfind).1
  have hflow := h.flow _ p hfind
  rw [hcq, transit_cons, if_pos ⟨hctx, hrecv⟩, ← List.append_assoc] at hflow
  refine { h with
    fresh := fun fd k hnone hk => ?_, unborn := fun k hk => ?_, flow := fun fd q hq => ?_,
    pre := fun k => ?_ }
  · have hne : k ≠ (s.ctx p).socket := by
      rintro rfl
      exact absurd (hnone.symm.trans (h.owned p hlt fd hk)) (by simp)
    show s.received k = [] ∧ Function.update s.fed _ _ k = []
    rw [Function.update_of_ne hne]
    exact h.fresh fd k hnone hk
  · have hne : k ≠ (s.ctx p).socket := by
      rintro rfl
      exact absurd (h.old p hlt) (not_lt.mpr hk)
    show s.received k = [] ∧ Function.update s.fed _ _ k = []
    rw [Function.update_of_ne hne]
    exact h.unborn k hk
  · show s.received (s.ctx q).socket = Function.update s.fed _ _ (s.ctx q).socket ++ transit rest q
    by_cases hqp : q = p
    · subst hqp
      rw [Function.update_self, hflow]
    · have hne : (s.ctx q).socket ≠ (s.ctx p).socket :=
        fun heq => hqp (h.distinct q p (hm fd q hq).1 hlt heq)
      have hflowq := h.flow fd q hq
      have hother : ¬ (e.ctx = some q ∧ e.op = .recv ∧ 0 < e.result) := by
        rintro ⟨hctx', _⟩
        exact hqp (Option.some.inj (hctx'.symm.trans hctx))
      rw [hcq, transit_cons, if_neg hother, List.nil_append] at hflowq
      rw [Function.update_of_ne hne, hflowq]
  · show Function.update s.fed _ _ k <+: s.received k
    by_cases heq : k = (s.ctx p).socket
    · subst heq
      rw [Function.update_self, hflow]
      exact List.prefix_append _ _
    · rw [Function.update_of_ne heq]
      exact h.pre k

lemma Isolated.copied {e : Cqe} {rest : List Cqe} (h : s.Isolated) (hs : s.view.Sound)
    (hcq : s.cq = e :: rest)
    (hctx : e.ctx = some p) : (({ s with cq := rest } : Reactor).copyOut e p).Isolated := by
  have hm := mapped_of_sound hs
  have htag := cqe_tag (hcq ▸ List.mem_cons_self)
  rw [hctx] at htag
  have hlt := tag_busy hs htag
  have hopen : (s.ctx p).closing = false ↔ s.find (s.ctx p).fd = some p := by
    cases hs.settled p hlt.1 with
    | active ha => exact ⟨fun _ => ha.serving.mapped, fun _ => ha.serving.closing⟩
    | draining hd =>
      refine ⟨fun hopen => ?_, fun hfind => absurd hfind (hd.unmapped _)⟩
      exact absurd (hopen.symm.trans hd.closing) (by decide)
    | idle hi => exact absurd hi hlt.2
  rw [copyOut_pop]
  unfold copyOut
  split_ifs with hc
  · have hfed := h.fed_data hs hcq hctx (hopen.mp hc.2.2) ⟨hc.1, hc.2.1⟩
    have hquiet : Quiet { s with
        cq := rest
        fed := Function.update s.fed (s.ctx p).socket (s.fed (s.ctx p).socket ++ e.data) } _ :=
      quiet_modify (p := p) (f := fun ctx => { ctx with input := ctx.input ++ e.data })
        (fun _ => rfl) (fun _ => rfl)
        (fun _ => rfl)
    exact hquiet.isolated hm hfed
  · refine h.plain hcq (fun fd q hq hrecv => hc ?_)
    have hqp : q = p := Option.some.inj (hrecv.1.symm.trans hctx)
    subst hqp
    exact ⟨hrecv.2.1, hrecv.2.2, hopen.mpr ((hm fd q hq).2.1.symm ▸ hq)⟩

lemma acquire_allConns (fd : ℕ) : (s.acquire fd).mgr.allConns = s.mgr.idle.2.allConns := by
  simp only [acquire, ConnectionManager.acquire_eq]

lemma acquire_find (fd fd' : ℕ) :
    (s.acquire fd).find fd' = if fd' = fd then some s.mgr.idle.1 else s.find fd' :=
  View.acquire_find (v := s.view) fd'

lemma acquire_ctx_ne (fd : ℕ) {q : ℕ} (hq : q ≠ s.mgr.idle.1) : (s.acquire fd).ctx q = s.ctx q :=
  View.acquire_ctx_ne (v := s.view) hq

lemma acquire_ctx (fd : ℕ) : (s.acquire fd).ctx s.mgr.idle.1 = { (s.ctx s.mgr.idle.1).reset fd with
    connId := s.mgr.nextId, socket := (s.files fd).getD 0 } := View.acquire_ctx (v := s.view)

section acquire

variable {fd k : ℕ} (hs : s.view.Sound) (hfree : s.find fd = none) (hopen : s.files fd = some k)
include hs hopen

lemma mapped_acquire : (s.acquire fd).Mapped := by
  have hv : s.view.Vacant s.mgr.idle.1 s.mgr.idle.2 := hs.vacant
  have hm := mapped_of_sound hs
  intro fd' q hq
  rw [acquire_find] at hq
  rw [acquire_allConns]
  split_ifs at hq with heq
  · cases hq
    rw [acquire_ctx, heq]
    exact ⟨hv.lt, rfl, hopen.trans (congrArg some (by rw [hopen, Option.getD_some]))⟩
  · have hne : q ≠ s.mgr.idle.1 := fun hqp => hv.unmapped fd' (hqp ▸ hq)
    obtain ⟨hlt, hfd, hfile⟩ := hm fd' q hq
    rw [acquire_ctx_ne fd hne]
    exact ⟨hlt.trans_le hv.grown, hfd, hfile⟩

include hfree

lemma Isolated.acquire (h : s.Isolated) : (s.acquire fd).Isolated := by
  have hv : s.view.Vacant s.mgr.idle.1 s.mgr.idle.2 := hs.vacant
  have hm := mapped_of_sound hs
  have hall := acquire_allConns (s := s) fd
  have hfind := acquire_find (s := s) fd
  have hsame : ∀ q ≠ s.mgr.idle.1, (s.acquire fd).ctx q = s.ctx q :=
    fun q hq => acquire_ctx_ne fd hq
  have hnew : ((s.acquire fd).ctx s.mgr.idle.1).socket = k := by
    rw [acquire_ctx, hopen, Option.getD_some]
  have hother : ∀ q < s.mgr.allConns, (s.ctx q).socket ≠ k := by
    rintro q hq rfl
    exact absurd (hfree.symm.trans (h.owned q hq fd hopen)) (by simp)
  have hbusy : ∀ q op, (some q, op) ∈ s.tags → q ≠ s.mgr.idle.1 := by
    rintro q op hmem rfl
    obtain ⟨hop, hout⟩ := tag_counted hs hmem
    exact hout (hv.out op hop)
  generalize s.mgr.idle.1 = p at *
  generalize s.mgr.idle.2 = m at *
  refine { h with
    queued := fun e he q hctx => ?_, taken := fun o ho q hctx => ?_, old := fun q hq => ?_,
    distinct := fun q q' hq hq' heq => ?_, owned := fun q hq fd' hk => ?_,
    fresh := fun fd' k' hnone hk => ?_,
    flow := fun fd' q hq => ?_ }
  · rw [hsame q (hbusy q e.op (hctx ▸ sqe_tag he))]
    exact h.queued e he q hctx
  · rw [hsame q (hbusy q o.sqe.op (hctx ▸ op_tag ho))]
    exact h.taken o ho q hctx
  · rw [hall] at hq
    by_cases hqp : q = p
    · rw [hqp, hnew]
      exact h.bounded fd k hopen
    · rw [hsame q hqp]
      exact h.old q (hv.old q hqp hq)
  · rw [hall] at hq hq'
    by_cases hqp : q = p <;> by_cases hqp' : q' = p
    · exact hqp.trans hqp'.symm
    · rw [hqp, hnew, hsame q' hqp'] at heq
      exact absurd heq.symm (hother q' (hv.old q' hqp' hq'))
    · rw [hqp', hnew, hsame q hqp] at heq
      exact absurd heq (hother q (hv.old q hqp hq))
    · rw [hsame q hqp, hsame q' hqp'] at heq
      exact h.distinct q q' (hv.old q hqp hq) (hv.old q' hqp' hq') heq
  · rw [hall] at hq
    rw [hfind]
    by_cases hqp : q = p
    · rw [hqp, hnew] at hk
      rw [if_pos (h.sole fd' fd k hk hopen), hqp]
    · rw [hsame q hqp] at hk
      have hfound := h.owned q (hv.old q hqp hq) fd' hk
      rw [if_neg, hfound]
      rintro rfl
      exact absurd (hfree.symm.trans hfound) (by simp)
  · rw [hfind] at hnone
    split_ifs at hnone
    exact h.fresh fd' k' hnone hk
  · rw [hfind] at hq
    split_ifs at hq with heq
    · cases hq
      have hnone : transit s.cq p = [] := by
        rw [transit, List.filter_eq_nil_iff.mpr, List.flatMap_nil]
        intro e he hrecv
        have hctx := (of_decide_eq_true hrecv).1
        exact hbusy p e.op (hctx ▸ cqe_tag he) rfl
      obtain ⟨hreceived, hfed⟩ := h.fresh fd k hfree hopen
      rw [hnew]
      show s.received k = s.fed k ++ transit s.cq p
      rw [hreceived, hfed, hnone, List.nil_append]
    · have hqp : q ≠ p := fun hqp => hv.unmapped fd' (hqp ▸ hq)
      rw [hsame q hqp]
      exact h.flow fd' q hq

end acquire

lemma mapped_copyOut (e : Cqe) (h : s.Mapped) : (s.copyOut e p).Mapped := by
  unfold copyOut
  split_ifs
  · intro fd q hq
    obtain ⟨hlt, hfd, hfile⟩ := h fd q hq
    refine ⟨hlt, ?_⟩
    show ((s.modify p (fun ctx => { ctx with input := ctx.input ++ e.data })).ctx q).fd = fd ∧
      s.files fd =
        some ((s.modify p (fun ctx => { ctx with input := ctx.input ++ e.data })).ctx q).socket
    rw [ctx_modify_apply]
    split_ifs <;> exact ⟨hfd, hfile⟩
  · exact h

lemma Isolated.handle {e : Cqe} {rest : List Cqe} (h : s.Isolated) (hs : s.view.Sound)
    (hcq : s.cq = e :: rest) :
    (({ s with cq := rest } : Reactor).handleCqe D e).Isolated := by
  have hmapped := mapped_of_sound hs
  have hm : ({ s with cq := rest } : Reactor).Mapped := hmapped
  cases starts_handleCqe (D := D) hs hcq with
  | accepted hop hresult hquiet =>
    have harr : e.result.toNat ∈ s.view.arrivals := by
      have hsome : e.arrival = some e.result.toNat := if_pos ⟨hop, hresult⟩
      simp [view, hcq, hsome]
    obtain ⟨hfree, hfile⟩ := hs.world.arrived _ harr
    obtain ⟨k, hopen⟩ := Option.ne_none_iff_exists'.mp hfile
    have hacquired := h.acquire hs hfree hopen
    have hnew := mapped_acquire hs hopen
    refine hquiet.isolated hnew (hacquired.plain hcq (fun fd q _ hrecv => ?_))
    exact absurd (hop.symm.trans hrecv.2.1) (by decide)
  | plain hctx hquiet =>
    refine hquiet.isolated hm (h.plain hcq (fun fd q _ hrecv => ?_))
    exact absurd (hctx.symm.trans hrecv.1) (by simp)
  | copied p hctx hquiet => exact hquiet.isolated (mapped_copyOut e hm) (h.copied hs hcq hctx)

lemma Isolated.step {a : Action} (h : s.Isolated) (hs : s.view.Sound) (hok : s.unnamed a = true)
    (hstep : s.step D a = some t) : t.Isolated := by
  obtain ⟨hen, rfl⟩ := step_cases hstep
  cases a with
  | enter n => exact h.handOver hs n
  | interrupted => exact { h with }
  | wake => exact quiet_retryDeferred.isolated (mapped_of_sound hs) h
  | handle =>
    cases hcq : s.cq with
    | nil => exact absurd hcq hen.2
    | cons e rest =>
      simp only [effect, hcq]
      exact h.handle hs hcq
  | loop => exact { h with }
  | acceptDone i fd =>
    obtain ⟨⟨o, ho, hop, _⟩, _⟩ := hen
    have hnamed : ∀ e ∈ s.sq, ∀ p, e.ctx = some p → e.fd ≠ fd := by
      intro e he p hctx hfd
      have htag := sqe_tag he
      rw [hctx] at htag
      have hguard := List.all_eq_true.mp hok e he
      simp [(tag_counted hs htag).1, hfd] at hguard
    have hcomplete : (s.complete i fd []).Isolated := h.complete ho (by simp [hop])
    simp only [effect]
    simp only [Reactor.complete, Option.mem_def.mp ho] at hcomplete ⊢
    exact hcomplete.accepted hnamed
  | recvDone i data =>
    obtain ⟨⟨o, ho, hop, hopen⟩, hpos, _⟩ := hen
    obtain ⟨k, hk⟩ := Option.ne_none_iff_exists'.mp (hopen (.inl rfl))
    have hsocket : (s.ops[i]?).bind Op.socket = some k := by
      rw [Option.mem_def.mp ho]
      exact hk
    simp only [effect, hsocket]
    exact h.received hs ho hop hk hpos
  | sendDone i n =>
    obtain ⟨⟨o, ho, hop, _⟩, _⟩ := hen
    exact h.complete ho (by simp [hop])
  | notifyDone i =>
    obtain ⟨⟨o, ho, hop, _⟩, _⟩ := hen
    have hcomplete : (s.complete i 8 []).Isolated := h.complete ho (by simp [hop])
    exact { hcomplete with }
  | opFail i result =>
    obtain ⟨hin, hresult, _⟩ := hen
    obtain ⟨o, ho⟩ := Option.ne_none_iff_exists'.mp hin
    exact h.complete ho (fun hrecv => absurd hrecv.2 (not_lt.mpr hresult))
  | workerDone i responseStr =>
    simp only [effect, workerDone]
    cases s.tasks[i]? with
    | none => exact h
    | some task => exact { h with }
  | eventfdWrite => exact { h with }

lemma isolated_listening : listening.Isolated where
  queued e he p hctx := by
    simp only [listening, List.mem_cons, List.not_mem_nil, or_false] at he
    rcases he with rfl | rfl <;> cases hctx
  taken := nofun
  handed := nofun
  placed := nofun
  sole := nofun
  bounded := nofun
  old := nofun
  distinct := nofun
  owned := nofun
  fresh := nofun
  unborn k _ := ⟨rfl, rfl⟩
  flow := nofun
  pre k := List.prefix_rfl

lemma isolated_run {as : List Action}
    (h : Run (Reactor.step D) (fun u a => u.unnamed a = true) listening as t) :
    t.Isolated :=
  h.invariant_with (K := fun u => u.view.Sound) isolated_listening (fun _ _ hr => sound_run hr.any)
    (fun _ _ _ hs _ hi hok hstep => hi.step hs hok hstep)

/-- When no accept takes a descriptor that a queued operation names, a send reaches the
socket of its own connection, and an open connection reads its own bytes in order. -/
theorem sockets_isolated (D : Decoding) {as : List Action}
    (h : Run (Reactor.step D) (fun u a => u.unnamed a = true) listening as s) :
    (∀ o ∈ s.handed, o.sqe.op = .send → ∀ k, o.socket = some k → k = o.sqe.owner) ∧
    (∀ p, s.Active p → s.received (s.ctx p).socket = s.fed (s.ctx p).socket ++ transit s.cq p) ∧
    ∀ k, s.fed k <+: s.received k := by
  have hi := isolated_run h
  refine ⟨fun o ho hop k hk => ?_, fun p hp => hi.flow _ p ((hp.mapped _).mpr rfl), hi.pre⟩
  have hplaced := hi.placed o ho
  cases hctx : o.sqe.ctx with
  | none => simp [hctx, hop, misplaced] at hplaced
  | some p => exact hi.handed o ho p hctx k hk

/-- A response is queued, its connection is closed in the same batch, and the next
connection gets the descriptor before the queue is handed over. -/
def reuseRun : List Action := acceptRun ++
  [.enter 2, .recvDone 1 [8, 0, 0, 0, 10, 1, 85, 18, 1, 76, 32, 1], .wake, .handle, .loop, .enter 1,
    .workerDone 0 (some [8, 1]), .eventfdWrite, .notifyDone 0, .opFail 1 0, .wake, .handle, .handle,
    .acceptDone 0 5,
    .handle, .loop, .enter 4]

theorem misdirected_sample : ∃ t, Run (Reactor.step sampleDecoding) Any listening reuseRun t ∧
    ∃ o ∈ t.handed, o.sqe.op = .send ∧ o.sqe.owner = 0 ∧ o.socket = some 1 := by
  obtain ⟨t, ht, hd⟩ : ∃ t, exec (Reactor.step sampleDecoding) listening reuseRun = some t ∧
      decide (∃ o ∈ t.handed, o.sqe.op = .send ∧ o.sqe.owner = 0 ∧ o.socket = some 1) = true :=
        exec_any (by decide)
  exact ⟨t, .of_exec ht (by decide), of_decide_eq_true hd⟩

theorem sockets_isolated_sample :
    ∃ t, exec (Reactor.step sampleDecoding) listening answerRun = some t ∧
    ∃ o ∈ t.handed, o.sqe.op = .send ∧ o.socket = some o.sqe.owner := by
  obtain ⟨t, ht, hd⟩ : ∃ t, exec (Reactor.step sampleDecoding) listening answerRun = some t ∧
      decide (∃ o ∈ t.handed, o.sqe.op = .send ∧ o.socket = some 0) = true := exec_any (by decide)
  obtain ⟨o, ho, hop, hk⟩ := of_decide_eq_true hd
  obtain ⟨hsend, -, -⟩ := sockets_isolated sampleDecoding (.of_exec ht (by decide))
  exact ⟨t, ht, o, ho, hop, hsend o ho hop 0 hk ▸ hk⟩

end KimRpc.Server.Reactor
