import KimRpc.Server.Pipelining
import KimRpc.Server.Quiet

/-! What is known of every context between two turns of the event loop: its class, the
operations on their way for it, and its connection id. -/

namespace KimRpc.Server

open Library.Runs

structure Issued (m : ConnectionManager) (ids : List UInt64) : Prop where
  numbers : ids = (List.range ids.length).map (fun k => UInt64.ofNat (k + 1))
  next : m.nextId = UInt64.ofNat (ids.length + 1)
  held : ∀ p < m.allConns, (m.contexts p).connId ∈ ids
  distinct : ids.length ≤ 2 ^ 64 →
    ∀ p q, p < m.allConns → q < m.allConns → (m.contexts p).connId = (m.contexts q).connId → p = q

lemma ticket_injective {j k : ℕ} (hj : j < 2 ^ 64) (hk : k < 2 ^ 64)
    (h : UInt64.ofNat (j + 1) = UInt64.ofNat (k + 1)) :
    j = k := by
  have hmod := congrArg UInt64.toNat h
  simp only [UInt64.toNat_ofNat'] at hmod
  omega

lemma Issued.nodup {m : ConnectionManager} {ids : List UInt64} (h : Issued m ids)
    (hle : ids.length ≤ 2 ^ 64) :
    ids.Nodup := by
  rw [h.numbers]
  refine List.Nodup.map_on (fun j hj k hk hjk => ?_) List.nodup_range
  rw [List.mem_range] at hj hk
  exact ticket_injective (by omega) (by omega) hjk

lemma Issued.fresh {m : ConnectionManager} {ids : List UInt64} (h : Issued m ids)
    (hlt : ids.length < 2 ^ 64) :
    m.nextId ∉ ids := by
  rw [h.numbers, h.next, List.mem_map]
  rintro ⟨k, hk, heq⟩
  rw [List.mem_range] at hk
  exact absurd (ticket_injective (by omega) hlt heq) (by omega)

namespace Reactor

variable {D : Decoding} {s t : Reactor} {p : ℕ}

lemma Quiet.issued (hq : Quiet s t) (h : Issued s.mgr s.acquired) : Issued t.mgr t.acquired := by
  have hid : ∀ p, (t.mgr.contexts p).connId = (s.mgr.contexts p).connId := hq.connId
  rw [hq.acquired]
  refine ⟨h.numbers, hq.nextId.trans h.next, fun p hp => ?_, fun hle p q hp hp' heq => ?_⟩
  · rw [hid]
    exact h.held p (hq.allConns ▸ hp)
  · rw [hid, hid] at heq
    exact h.distinct hle p q (hq.allConns ▸ hp) (hq.allConns ▸ hp') heq

lemma issued_acquire {fd : ℕ} (hs : s.view.Sound) (h : Issued s.mgr s.acquired) :
    Issued (s.acquire fd).mgr (s.acquire fd).acquired := by
  have hv : s.view.Vacant s.mgr.idle.1 s.mgr.idle.2 := hs.vacant
  have hm := ConnectionManager.acquire_eq s.mgr fd ((s.files fd).getD 0)
  have hlen : (s.acquired ++ [s.mgr.nextId]).length = s.acquired.length + 1 := by simp
  simp only [acquire, hm]
  generalize s.mgr.idle.1 = p at *
  refine ⟨?_, ?_, fun q hq => ?_, fun hle q q' hq hq' heq => ?_⟩
  · rw [hlen, List.range_succ, List.map_append, ← h.numbers, h.next]
    rfl
  · show s.mgr.nextId + 1 = _
    rw [hlen, h.next, UInt64.ofNat_add (s.acquired.length + 1) 1]
    rfl
  · by_cases hqp : q = p
    · simp [hqp]
    · simpa [hqp] using .inl (h.held q (hv.old q hqp hq))
  · rw [hlen] at hle
    have hfresh := h.fresh (by omega)
    by_cases hqp : q = p <;> by_cases hqp' : q' = p
    · exact hqp.trans hqp'.symm
    · subst hqp
      simp only [Function.update_self, ne_eq, hqp', not_false_eq_true, Function.update_of_ne] at heq
      exact absurd (heq ▸ h.held q' (hv.old q' hqp' hq')) hfresh
    · subst hqp'
      simp only [Function.update_self, ne_eq, hqp, not_false_eq_true, Function.update_of_ne] at heq
      exact absurd (heq ▸ h.held q (hv.old q hqp hq)) hfresh
    · simp only [ne_eq, hqp, hqp', not_false_eq_true, Function.update_of_ne] at heq
      exact h.distinct (by omega) q q' (hv.old q hqp hq) (hv.old q' hqp' hq') heq

lemma complete_mgr (i : ℕ) (result : ℤ) (data : Wire.Bytes) :
    (s.complete i result data).mgr = s.mgr ∧ (s.complete i result data).acquired = s.acquired := by
  unfold complete
  cases s.ops[i]? <;> exact ⟨rfl, rfl⟩

lemma effect_mgr {a : Action} (hwake : a ≠ .wake) (hhandle : a ≠ .handle) :
    (s.effect D a).mgr = s.mgr ∧ (s.effect D a).acquired = s.acquired := by
  cases a with
  | wake => exact absurd rfl hwake
  | handle => exact absurd rfl hhandle
  | recvDone i data =>
    simp only [effect]
    cases (s.ops[i]?).bind Op.socket with
    | none => exact ⟨rfl, rfl⟩
    | some k => exact complete_mgr i _ _
  | workerDone i responseStr =>
    simp only [effect, workerDone]
    cases s.tasks[i]? <;> exact ⟨rfl, rfl⟩
  | acceptDone i fd => exact complete_mgr i _ _
  | sendDone i n => exact complete_mgr i _ _
  | notifyDone i => exact complete_mgr i _ _
  | opFail i result => exact complete_mgr i _ _
  | _ => exact ⟨rfl, rfl⟩

lemma issued_copyOut (e : Cqe) (h : Issued s.mgr s.acquired) :
    Issued (s.copyOut e p).mgr (s.copyOut e p).acquired := by
  have hquiet : Quiet s (s.modify p (fun ctx => { ctx with input := ctx.input ++ e.data })) :=
    quiet_modify (fun _ => rfl) (fun _ => rfl) (fun _ => rfl)
  unfold copyOut
  split_ifs
  · exact hquiet.issued h
  · exact h

lemma issued_step {a : Action} (hs : s.view.Sound) (h : Issued s.mgr s.acquired)
    (hstep : s.step D a = some t) :
    Issued t.mgr t.acquired := by
  obtain ⟨hen, rfl⟩ := step_cases hstep
  by_cases hwake : a = .wake
  · subst hwake
    exact quiet_retryDeferred.issued h
  by_cases hhandle : a = .handle
  · subst hhandle
    cases hcq : s.cq with
    | nil => exact absurd hcq hen.2
    | cons e rest =>
      simp only [effect, hcq]
      cases starts_handleCqe (D := D) hs hcq with
      | accepted _ _ hquiet =>
        have hissued : Issued (s.acquire e.result.toNat).mgr (s.acquire e.result.toNat).acquired :=
          issued_acquire hs h
        exact hquiet.issued hissued
      | plain _ hquiet => exact hquiet.issued h
      | copied p _ hquiet => exact hquiet.issued (issued_copyOut (s := { s with cq := rest }) e h)
  · obtain ⟨hmgr, hacquired⟩ := effect_mgr (D := D) (s := s) hwake hhandle
    rw [hmgr, hacquired]
    exact h

lemma issued_run {as : List Action} (h : Run (Reactor.step D) Any listening as t) :
    Issued t.mgr t.acquired := by
  refine h.invariant_with (K := fun u => u.view.Sound) (I := fun u => Issued u.mgr u.acquired) ?_
    (fun _ _ hr => sound_run hr) (fun _ _ _ hs _ hi _ hstep => issued_step hs hi hstep)
  exact ⟨rfl, rfl, nofun, nofun⟩

variable (s p)

def recvs : ℕ := s.tags.count (some p, .recv)

def sends : ℕ := s.tags.count (some p, .send)

structure Active : Prop where
  mapped : ∀ fd, s.find fd = some p ↔ fd = (s.ctx p).fd
  closing : (s.ctx p).closing = false
  unpooled : p ∉ s.mgr.idlePool

structure Draining : Prop where
  unmapped : ∀ fd, s.find fd ≠ some p
  closing : (s.ctx p).closing = true
  inflight : 1 ≤ (s.ctx p).inflight
  unpooled : p ∉ s.mgr.idlePool

structure Idle : Prop where
  unmapped : ∀ fd, s.find fd ≠ some p
  pooled : s.mgr.idlePool.count p = 1
  quiet : ∀ op, (some p, op) ∉ s.tags

def ExactlyOne (a b c : Prop) : Prop := (a ∧ ¬b ∧ ¬c) ∨ (¬a ∧ b ∧ ¬c) ∨ (¬a ∧ ¬b ∧ c)

variable {s p}

lemma active_iff (h : s.view.Sound) : s.Active p ↔ s.view.Active p := by
  constructor
  · intro ha
    exact (h.active_of_find ((ha.mapped (s.ctx p).fd).mpr rfl)).1
  · intro ha
    refine ⟨fun fd => ⟨fun hfind => ?_, ?_⟩, ha.serving.closing, ha.serving.unpooled⟩
    · exact (h.world.maps fd p hfind).2.symm
    · rintro rfl
      exact ha.serving.mapped

lemma draining_iff (h : s.view.Sound) (hp : p < s.mgr.allConns) : s.Draining p ↔
    s.view.Draining p := by
  constructor
  · intro hd
    cases h.settled p hp with
    | active ha => exact absurd ha.serving.mapped (hd.unmapped _)
    | draining hd => exact hd
    | idle hi => exact absurd hi.pooled hd.unpooled
  · intro hd
    exact ⟨hd.unmapped, hd.closing, le_of_eq hd.inflight.symm, hd.unpooled⟩

lemma tag_counted (h : s.view.Sound) {op : OpType} (hmem : (some p, op) ∈ s.tags) :
    (op = .recv ∨ op = .send) ∧ s.view.out p op ≠ 0 := by
  have hkinds : s.tags.countP misplaced = 0 := h.world.kinds
  rw [List.countP_eq_zero] at hkinds
  have hplaced := hkinds _ hmem
  refine ⟨?_, (List.count_pos_iff.mpr hmem).ne'⟩
  cases op <;> simp_all [misplaced]

lemma tag_busy (h : s.view.Sound) {op : OpType} (hmem : (some p, op) ∈ s.tags) :
    p < s.mgr.allConns ∧ ¬ s.view.Idle p := by
  obtain ⟨hop, hout⟩ := tag_counted h hmem
  constructor
  · by_contra hge
    exact hout ((h.world.fresh p (not_lt.mp hge)).1 op)
  · intro hi
    rcases hop with rfl | rfl
    · exact hout hi.recvs
    · exact hout hi.sends

lemma idle_iff (h : s.view.Sound) (hp : p < s.mgr.allConns) : s.Idle p ↔ s.view.Idle p := by
  constructor
  · intro hi
    have hmem : p ∈ s.mgr.idlePool := List.count_pos_iff.mp (by rw [hi.pooled]; exact Nat.one_pos)
    cases h.settled p hp with
    | active ha => exact absurd ha.serving.mapped (hi.unmapped _)
    | draining hd => exact absurd hmem hd.unpooled
    | idle hi => exact hi
  · intro hi
    refine ⟨hi.unmapped, List.count_eq_one_of_mem h.world.nodup hi.pooled, fun op hmem => ?_⟩
    exact (tag_busy h hmem).2 hi

/-- Every context is active, draining or idle. An operation on its way is counted by
its context, and a connection id is given out once. -/
theorem contexts_classified (D : Decoding) {as : List Action}
    (h : Run (Reactor.step D) Any listening as s) :
    (∀ p < s.mgr.allConns, ExactlyOne (s.Active p) (s.Draining p) (s.Idle p) ∧
      (s.Active p ∨ s.Draining p → (s.ctx p).inflight = s.recvs p + s.sends p)) ∧
    (∀ p op, (some p, op) ∈ s.tags → p < s.mgr.allConns ∧ ¬ s.Idle p) ∧
    (s.acquired.length < 2 ^ 64 → s.acquired.Nodup ∧
      ∀ p q, s.Active p → s.Active q → (s.ctx p).connId = (s.ctx q).connId → p = q) := by
  have hs := sound_run h
  have hi := issued_run h
  refine ⟨fun p hp => ⟨?_, ?_⟩, fun p op hmem => ?_, fun hlt => ⟨?_, ?_⟩⟩
  · cases hs.settled p hp with
    | active ha =>
      have ha' := (active_iff hs).mpr ha
      refine .inl ⟨ha', fun hd => hd.unmapped _ ha.serving.mapped,
        fun hi => hi.unmapped _ ha.serving.mapped⟩
    | draining hd =>
      refine .inr (.inl ⟨fun ha => ?_, (draining_iff hs hp).mpr hd, fun hi => ?_⟩)
      · exact absurd (ha.closing.symm.trans hd.closing) (by decide)
      · exact hd.unpooled ((idle_iff hs hp).mp hi).pooled
    | idle hi =>
      refine .inr (.inr ⟨fun ha => ?_, fun hd => ?_, (idle_iff hs hp).mpr hi⟩)
      · exact ha.unpooled hi.pooled
      · exact hd.unpooled hi.pooled
  · rintro (ha | hd)
    · exact ((active_iff hs).mp ha).serving.inflight
    · have hd := (draining_iff hs hp).mp hd
      have hlast : s.recvs p + s.sends p = 1 := hd.last
      have hinflight : (s.ctx p).inflight = 1 := hd.inflight
      omega
  · exact ⟨(tag_busy hs hmem).1, fun hidle => hidle.quiet op hmem⟩
  · exact hi.nodup hlt.le
  · intro p q hp hq
    have hlt' : ∀ p, s.Active p → p < s.mgr.allConns :=
      fun p hp => ((active_iff hs).mp hp).serving.lt hs.world
    exact hi.distinct hlt.le p q (hlt' p hp) (hlt' q hq)

def sampleDecoding : Decoding := ⟨Wire.protoCodec.parseFromString, sampleServices⟩

/-- A connection is accepted on descriptor 5. -/
def acceptRun : List Action := [.enter 2, .acceptDone 0 5, .wake, .handle, .loop]

theorem contexts_classified_sample :
    ∃ t, exec (Reactor.step sampleDecoding) listening acceptRun = some t ∧
    ExactlyOne (t.Active 0) (t.Draining 0) (t.Idle 0) ∧ t.acquired = [1] ∧ t.acquired.Nodup := by
  obtain ⟨t, ht, hd⟩ : ∃ t, exec (Reactor.step sampleDecoding) listening acceptRun = some t ∧
      decide (t.mgr.allConns = 1 ∧ t.acquired = [1]) = true := exec_any (by decide)
  obtain ⟨hn, hids⟩ := of_decide_eq_true hd
  obtain ⟨hclasses, -, hunique⟩ := contexts_classified sampleDecoding (.of_exec ht (by decide))
  exact ⟨t, ht, (hclasses 0 (by omega)).1, hids, (hunique (by simp [hids])).1⟩

/-- The operations of a connection: one receive unless reading is paused, one send while
frames are queued, and a last one when it is closing. -/
theorem operations_disciplined (D : Decoding) {as : List Action}
    (h : Run (Reactor.step D) Any listening as s) :
    (∀ p, s.Active p → s.recvs p ≤ 1 ∧ s.sends p ≤ 1 ∧
      (s.recvs p = 1 ↔ (s.ctx p).readPaused = false) ∧
      ((s.ctx p).readPaused = true → kMaxInflightPerConn ≤ (s.ctx p).pendingReqs) ∧
      ((s.ctx p).sending = true ↔ s.sends p = 1) ∧
      ((s.ctx p).sending = true ↔ (s.ctx p).outQueue ≠ []) ∧
      ∀ front rest, (s.ctx p).outQueue = front :: rest → (s.ctx p).written < front.length) ∧
    (∀ p < s.mgr.allConns, s.Draining p → s.recvs p + s.sends p = 1) ∧
    (∀ e rest p t, s.cq = e :: rest → e.ctx = some p →
      ({ s with cq := rest } : Reactor).entered e p = some t →
      t.find (t.ctx p).fd = some p ∧ (t.ctx p).closing = false ∧
      (e.op = .send → (t.ctx p).outQueue ≠ [])) ∧
    s.faulted = false := by
  have hs := sound_run h
  refine ⟨fun p hp => ?_, fun p hp hd => ((draining_iff hs hp).mp hd).last,
    fun e rest p t hcq hctx ht => ?_,
    hs.world.defined⟩
  · have ha := (active_iff hs).mp hp
    have hrecv : s.recvs p = if (s.ctx p).readPaused = true then 0 else 1 := ha.recvs.armed
    have hsend : s.sends p = if (s.ctx p).sending = true then 1 else 0 := ha.sends.armed
    refine ⟨?_, ?_, ?_, ha.recvs.paused, ?_, ha.queued, ha.sends.written⟩
    · rw [hrecv]
      split_ifs <;> omega
    · rw [hsend]
      split_ifs <;> omega
    · rw [hrecv]
      split_ifs with hpaused <;> simp [hpaused]
    · rw [hsend]
      split_ifs with hsending <;> simp [hsending]
  · rcases sound_entered hs hcq hctx with ⟨u, hu, howing, hq⟩ | ⟨hnone, _⟩
    · cases Option.some.inj (ht.symm.trans hu)
      exact ⟨howing.serving.mapped, howing.serving.closing, hq⟩
    · rw [hnone] at ht
      cases ht

def answerRun : List Action := acceptRun ++
  [.enter 2, .recvDone 1 [8, 0, 0, 0, 10, 1, 85, 18, 1, 76, 32, 1], .wake, .handle, .loop, .enter 1,
    .workerDone 0 (some [8, 1]), .eventfdWrite, .notifyDone 0, .wake, .handle, .loop, .enter 2,
    .sendDone 2 5]

theorem operations_disciplined_sample :
    ∃ t, exec (Reactor.step sampleDecoding) listening answerRun = some t ∧
    t.recvs 0 ≤ 1 ∧ t.sends 0 ≤ 1 ∧ ((t.ctx 0).sending = true ↔ (t.ctx 0).outQueue ≠ []) ∧
    t.faulted = false := by
  obtain ⟨t, ht, hd⟩ : ∃ t, exec (Reactor.step sampleDecoding) listening answerRun = some t ∧
      decide (t.find 5 = some 0) = true := exec_any (by decide)
  have hrun : Run (Reactor.step sampleDecoding) Any listening answerRun t := .of_exec ht (by decide)
  have ha : t.Active 0 :=
    (active_iff (sound_run hrun)).mpr ((sound_run hrun).active_of_find (of_decide_eq_true hd)).1
  obtain ⟨hopen, -, -, hdefined⟩ := operations_disciplined sampleDecoding hrun
  obtain ⟨hrecvs, hsends, -, -, -, hqueued, -⟩ := hopen 0 ha
  exact ⟨t, ht, hrecvs, hsends, hqueued, hdefined⟩

end Reactor

end KimRpc.Server
