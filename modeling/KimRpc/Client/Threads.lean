import KimRpc.Client.Ledger
import KimRpc.Client.Steps

/-! Invariants of the threads of a channel: which calls there are, who holds the
connection lock, what the joins and the drain of the destructor leave, and that
request ids are distinct. -/

namespace KimRpc.Client.Channel

open Library.Tables Library.Runs

variable {env : ChannelEnv} {s t : Channel} {a : Action} {c : ℕ}

structure Called (s : Channel) : Prop where
  absent : ∀ c, s.started ≤ c → (s.calls c).pc = .absent
  error : ∀ c, (s.calls c).error ≠ some .rpcTimeout
  ended : s.destructor ≠ .alive → ∀ c < s.started, s.Returned c

lemma destructor_step (h : s.step env a = some t) :
    t.destructor ≠ .alive → s.destructor ≠ .alive ∨ ∀ c < s.started, s.Returned c := by
  obtain ⟨he, rfl⟩ := step_eq h
  cases a with
  | prepare c inv =>
    rcases s.prepare_cases c env inv with hp | ⟨call, -, -, -, hp⟩ <;> rw [effect, hp] <;>
      exact .inl
  | connect c =>
    simp only [effect, Channel.connect]
    split_ifs <;> exact .inl
  | join c =>
    simp only [effect, Channel.join]
    split_ifs <;> exact .inl
  | openConnection c result =>
    rcases s.openConnection_cases c result with ⟨reason, -, ho⟩ | ⟨-, ho⟩ <;> rw [effect, ho] <;>
      exact .inl
  | send c ret =>
    obtain ⟨call, -, -, -, mtx, hs⟩ := s.send_cases c ret he.1
    rw [effect, hs]
    exact .inl
  | undo c =>
    simp only [effect, Channel.undo, goto, setCall, record]
    split <;> exact .inl
  | recvTop =>
    simp only [effect, Channel.recvTop]
    split_ifs <;> exact .inl
  | recvTake id body =>
    simp only [effect, Channel.recvTake, take, record, setBatch]
    split <;> exact .inl
  | tick =>
    simp only [effect, Channel.tick, take, record, setBatch]
    split_ifs <;> exact .inl
  | runDone w id =>
    simp only [effect, Channel.runDone, record, setBatch]
    split <;> exact .inl
  | free w =>
    simp only [effect, Channel.free, record, setBatch]
    split <;> exact .inl
  | destroy => exact fun _ => .inr he.2
  | joinTimer | teardown | joinRecv | destroyed => exact fun _ => .inl (by simp [he.1])
  | closeAll =>
    simp only [Enabled] at he
    exact fun _ => .inl (by simp [he])
  | recvFailAll =>
    simp only [effect, failAllPending, take, setBatch, record]
    exact .inl
  | _ => exact .inl

lemma Called.step (hi : s.Called) (h : s.step env a = some t) : t.Called := by
  have hreturned : t.destructor ≠ .alive → ∀ c < s.started, s.Returned c := by
    intro hd
    rcases destructor_step h hd with hs | hs
    · exact hi.ended hs
    · exact hs
  have hmoved : ∀ c call, call.pc ≠ .absent → (s.calls c).pc ≠ .absent →
      (s.calls c).pc ≠ .returned →
      (s.calls c).pc ≠ .sent → (call.error = (s.calls c).error ∨ call.error ≠ some .rpcTimeout) →
      t.calls = Function.update s.calls c call → t.started = s.started → t.Called := by
    intro c call hpc hc hr hs herror hcalls hstarted
    have hlt : c < s.started := by
      by_contra hn
      exact hc (hi.absent c (by omega))
    refine ⟨?_, ?_, ?_⟩
    · intro d hd
      have hne : d ≠ c := by omega
      rw [hcalls, Function.update_of_ne hne]
      exact hi.absent d (by omega)
    · intro d
      rw [hcalls]
      by_cases hdc : d = c
      · subst hdc
        rw [Function.update_self]
        rcases herror with he | he
        · rw [he]
          exact hi.error d
        · exact he
      · rw [Function.update_of_ne hdc]
        exact hi.error d
    · intro hd
      rcases hreturned hd c hlt with hret | hret
      · exact absurd hret hr
      · exact absurd hret hs
  cases step_calls h with
  | idle hcalls hstarted hid =>
    refine ⟨?_, ?_, ?_⟩
    · simpa only [hcalls, hstarted] using hi.absent
    · simpa only [hcalls] using hi.error
    · simpa only [Returned, hcalls, hstarted] using hreturned
  | started call hpc herror hcalls hstarted hid halive =>
    refine ⟨?_, ?_, fun hd => absurd halive hd⟩
    · intro d hd
      have hne : d ≠ s.started := by omega
      rw [hcalls, Function.update_of_ne hne]
      exact hi.absent d (by omega)
    · intro d
      rw [hcalls]
      by_cases hdc : d = s.started
      · simp [hdc, herror]
      · rw [Function.update_of_ne hdc]
        exact hi.error d
  | moved c call hmoves hcalls hstarted hid =>
    have hp := hmoves.pc
    refine hmoved c call ?_ ?_ ?_ ?_ hmoves.error hcalls hstarted <;> intro hc
    · cases hs : (s.calls c).pc <;> simp [hs, hc, CallPc.next] at hp
    · simp [hc, CallPc.next] at hp
    · simp [hc, CallPc.next] at hp
    · simp [hc, CallPc.next] at hp
  | allocated c call hpc hpc' hrequest herror hcalls hstarted hid =>
    refine hmoved c call ?_ ?_ ?_ ?_ herror hcalls hstarted
    · intro hc
      simp [hc] at hpc'
    all_goals simp [hpc]

def Holds (pc : CallPc) : Prop := pc = .joining ∨ pc = .opening

/-- Who holds `m_connMtx` from one step to the next, and what that call has done so far. -/
structure Locked (s : Channel) : Prop where
  holder : ∀ c, s.connMtx = some c ↔ Holds (s.calls c).pc
  closed : s.connMtx ≠ none → s.clientfd = none
  joined : ∀ c, (s.calls c).pc = .opening → s.recvThread = none

lemma Locked.frame (hi : s.Locked) (hm : t.connMtx = s.connMtx)
    (hf : t.clientfd = s.clientfd ∨ t.clientfd = none)
    (hr : t.recvThread = s.recvThread ∨ s.recvThread ≠ none ∨ t.recvThread = none)
    (hc : ∀ c, (t.calls c).pc = (s.calls c).pc ∨ ¬ Holds (t.calls c).pc ∧ ¬ Holds (s.calls c).pc) :
    t.Locked := by
  refine ⟨?_, ?_, ?_⟩
  · intro c
    rw [hm, hi.holder]
    rcases hc c with h | ⟨h, h'⟩
    · rw [h]
    · exact iff_of_false h' h
  · intro hn
    rcases hf with h | h
    · rw [h]
      exact hi.closed (by rwa [hm] at hn)
    · exact h
  · intro c hpc
    have hs : (s.calls c).pc = .opening := by
      rcases hc c with h | ⟨h, -⟩
      · rw [← h, hpc]
      · exact absurd (.inr hpc) h
    have hn := hi.joined c hs
    rcases hr with h | h | h
    · rw [h, hn]
    · exact absurd hn h
    · exact h

lemma Locked.frame_call (hi : s.Locked) {call : Call}
    (hpc : ¬ Holds call.pc ∧ ¬ Holds (s.calls c).pc)
    (hcalls : t.calls = Function.update s.calls c call) (hm : t.connMtx = s.connMtx)
    (hf : t.clientfd = s.clientfd) (hr : t.recvThread = s.recvThread) : t.Locked := by
  refine hi.frame hm (.inl hf) (.inl hr) (fun d => ?_)
  rw [hcalls]
  by_cases hd : d = c
  · subst hd
    right
    simpa using hpc
  · exact .inl (by rw [Function.update_of_ne hd])

lemma Locked.step (hi : s.Locked) (hcalled : s.Called) (h : s.step env a = some t) : t.Locked := by
  obtain ⟨he, rfl⟩ := step_eq h
  cases a with
  | start parent =>
    have habs := hcalled.absent s.started le_rfl
    exact hi.frame_call (by simp [Holds, habs]) rfl rfl rfl rfl
  | prepare c inv =>
    simp only [Enabled] at he
    rcases s.prepare_cases c env inv with hp | ⟨call, hpc, -, -, hp⟩ <;> rw [effect, hp]
    · exact hi.frame_call (by simp [Holds, he]) rfl rfl rfl rfl
    · refine hi.frame_call (c := c) ⟨?_, by simp [Holds, he]⟩ rfl rfl rfl rfl
      rintro (hj | hj) <;> simp [hj] at hpc
  | connect c =>
    simp only [effect, Channel.connect]
    split_ifs
    · exact hi.frame_call (by simp [Holds, he.1]) rfl rfl rfl rfl
    · refine ⟨?_, fun _ => rfl, ?_⟩
      · intro d
        have hd := hi.holder d
        by_cases hdc : d = c
        · simp [hdc, goto, setCall, Holds]
        · simpa [goto, setCall, hdc, Ne.symm hdc, he.2] using hd
      · intro d hd
        by_cases hdc : d = c
        · simp [hdc, goto, setCall] at hd
        · exact hi.joined d (by simpa [goto, setCall, hdc] using hd)
  | join c =>
    have hheld := (hi.holder c).mpr (.inl he.1)
    simp only [effect, Channel.join]
    split_ifs
    · exact ⟨hi.holder, hi.closed, hi.joined⟩
    · refine ⟨?_, hi.closed, fun _ _ => rfl⟩
      intro d
      by_cases hdc : d = c
      · subst hdc
        simp [goto, setCall, Holds, hheld]
      · simpa [goto, setCall, hdc] using hi.holder d
  | openConnection c result =>
    have hheld := (hi.holder c).mpr (.inr he)
    have hother : ∀ d ≠ c, ¬ Holds (s.calls d).pc := by
      intro d hd hh
      rw [← hi.holder, hheld] at hh
      exact hd (Option.some.inj hh).symm
    have hfree : ∀ call : Call, ¬ Holds call.pc →
        ∀ d, ¬ Holds (Function.update s.calls c call d).pc := by
      intro call hpc
      exact (Function.forall_update_iff s.calls (fun _ (call : Call) => ¬ Holds call.pc)).mpr
        ⟨hpc, hother⟩
    have hlocked : ∀ (call : Call) (u : Channel), ¬ Holds call.pc →
        u.calls = Function.update s.calls c call →
        u.connMtx = none → u.Locked := by
      intro call u hpc hcalls hm
      have hu : ∀ d, ¬ Holds (u.calls d).pc := by
        rw [hcalls]
        exact hfree call hpc
      refine ⟨?_, fun hn => absurd hm hn, fun d hd => absurd (.inr hd) (hu d)⟩
      intro d
      simp [hm, hu d]
    rcases s.openConnection_cases c result with ⟨reason, -, ho⟩ | ⟨-, ho⟩ <;> rw [effect, ho]
    · exact hlocked _ _ (by simp [Holds]) rfl rfl
    · exact hlocked _ _ (by simp [Holds]) rfl rfl
  | register c =>
    simp only [Enabled] at he
    exact hi.frame_call (by simp [Holds, he]) rfl rfl rfl rfl
  | lockSend c => exact hi.frame_call (by simp [Holds, he.1]) rfl rfl rfl rfl
  | send c ret =>
    obtain ⟨call, hpc, -, -, mtx, hs⟩ := s.send_cases c ret he.1
    rw [effect, hs]
    refine hi.frame_call (c := c) ⟨?_, by simp [Holds, he.1]⟩ rfl rfl rfl rfl
    rintro (hj | hj) <;> simp [hj] at hpc
  | sendFail c errno =>
    simp only [Enabled] at he
    exact hi.frame_call (by simp [Holds, he]) rfl rfl rfl rfl
  | undo c =>
    simp only [Enabled] at he
    simp only [effect, Channel.undo, goto, setCall, record]
    split <;> exact hi.frame_call (by simp [Holds, he]) rfl rfl rfl rfl
  | fail c =>
    simp only [Enabled] at he
    exact hi.frame_call (by simp [Holds, he]) rfl rfl rfl rfl
  | «return» c => exact hi.frame_call (by simp [Holds, he.1]) rfl rfl rfl rfl
  | recvTop =>
    simp only [Enabled] at he
    simp only [effect, Channel.recvTop]
    split_ifs <;> exact hi.frame rfl (.inl rfl) (.inr (.inl (by simp [he]))) (fun _ => .inl rfl)
  | recvTake id body =>
    simp only [effect, Channel.recvTake, take, record, setBatch]
    split <;> exact hi.frame rfl (.inl rfl) (.inr (.inl (by simp [he.1]))) (fun _ => .inl rfl)
  | recvFail | recvNext | recvFinish =>
    exact hi.frame rfl (.inl rfl) (.inr (.inl (by simp [he.1]))) (fun _ => .inl rfl)
  | recvFailAll =>
    simp only [Enabled] at he
    simp only [effect, failAllPending, take, setBatch, record]
    exact hi.frame rfl (.inl rfl) (.inr (.inl (by simp [he]))) (fun _ => .inl rfl)
  | tick =>
    simp only [effect, Channel.tick, take, record, setBatch]
    split_ifs <;> exact hi.frame rfl (.inl rfl) (.inl rfl) (fun _ => .inl rfl)
  | runDone w id =>
    simp only [effect, Channel.runDone, record, setBatch]
    split <;> exact hi.frame rfl (.inl rfl) (.inl rfl) (fun _ => .inl rfl)
  | free w =>
    simp only [effect, Channel.free, record, setBatch]
    split <;> exact hi.frame rfl (.inl rfl) (.inl rfl) (fun _ => .inl rfl)
  | teardown => exact hi.frame rfl (.inr rfl) (.inl rfl) (fun _ => .inl rfl)
  | joinRecv => exact hi.frame rfl (.inl rfl) (.inr (.inr rfl)) (fun _ => .inl rfl)
  | closeAll =>
    simp only [effect, failAllPending, take, setBatch, record]
    exact hi.frame rfl (.inl rfl) (.inl rfl) (fun _ => .inl rfl)
  | recv _ | timerNext | timerExit | destroy | joinTimer | destroyed | clock _ | setTimeoutMs _ =>
    exact hi.frame rfl (.inl rfl) (.inl rfl) (fun _ => .inl rfl)

lemma Called.alive (hi : s.Called) (hpc : (s.calls c).pc ∉ [CallPc.absent, .returned, .sent]) :
    s.destructor = .alive := by
  by_contra hd
  simp only [List.mem_cons, List.not_mem_nil, or_false, not_or] at hpc
  have hlt : c < s.started := by
    by_contra hn
    exact hpc.1 (hi.absent c (by omega))
  rcases hi.ended hd c hlt with h | h
  · exact hpc.2.1 h
  · exact hpc.2.2 h

structure Settled (s : Channel) : Prop where
  timer : s.timer ≠ .expiring → (s.batches .timer).Done
  recv : s.recvThread ≠ some .completing → s.recvThread ≠ some .draining → (s.batches .recv).Done
  destructor : s.destructor ≠ .draining → (s.batches .destructor).Done
  timerJoined : s.destructor ∈ [.tearingDown, .joiningRecv, .failing, .draining, .returned] →
      s.timer = .finished
  recvJoined : s.destructor ∈ [.failing, .draining, .returned] → s.recvThread = none
  drained : s.destructor ∈ [.draining, .returned] → s.pending = ∅
  expired : ∀ id p, (s.batches .timer).todo.lookup id = some p → p.expired s.now = true
  reasons : ∀ w, (s.batches w).failed = some .rpcTimeout → w = .timer

lemma Settled.frame (hi : s.Settled) (ht : t.timer = s.timer) (hr : t.recvThread = s.recvThread)
    (hd : t.destructor = s.destructor) (hb : t.batches = s.batches) (hn : t.now = s.now)
    (hp : t.pending = s.pending ∨ s.destructor = .alive) : t.Settled := by
  refine ⟨?_, ?_, ?_, ?_, ?_, ?_, ?_, ?_⟩
  · simpa only [ht, hb] using hi.timer
  · simpa only [hr, hb] using hi.recv
  · simpa only [hd, hb] using hi.destructor
  · simpa only [hd, ht] using hi.timerJoined
  · simpa only [hd, hr] using hi.recvJoined
  · rcases hp with hp | hp
    · simpa only [hd, hp] using hi.drained
    · simp [hd, hp]
  · simpa only [hb, hn] using hi.expired
  · simpa only [hb] using hi.reasons

lemma Settled.recv_moves (hi : s.Settled) (hsome : s.recvThread ≠ none)
    (hr : t.recvThread ≠ some .completing → t.recvThread ≠ some .draining → (t.batches .recv).Done)
    (hb : ∀ w ≠ .recv, t.batches w = s.batches w) (hf : (t.batches .recv).failed ≠ some .rpcTimeout)
    (ht : t.timer = s.timer) (hd : t.destructor = s.destructor) (hn : t.now = s.now) :
    t.Settled := by
  have hnot : s.destructor ∉ [.failing, .draining, .returned] := fun h => hsome (hi.recvJoined h)
  refine ⟨?_, hr, ?_, ?_, ?_, ?_, ?_, ?_⟩
  · simpa only [ht, hb .timer (by simp)] using hi.timer
  · simpa only [hd, hb .destructor (by simp)] using hi.destructor
  · simpa only [hd, ht] using hi.timerJoined
  · exact fun h => absurd (hd ▸ h) hnot
  · intro h
    rw [hd] at h
    exact absurd (List.mem_cons_of_mem _ h) hnot
  · simpa only [hb .timer (by simp), hn] using hi.expired
  · intro w hw
    by_cases hwr : w = .recv
    · subst hwr
      exact absurd hw hf
    · exact hi.reasons w (by rwa [hb w hwr] at hw)

lemma Settled.work (hi : s.Settled) {w : Worker} {b : Batch} (hnot : ¬ (s.batches w).Done)
    (hb : t.batches = Function.update s.batches w b) (hf : b.failed = (s.batches w).failed)
    (htodo : ∀ id p, b.todo.lookup id = some p → (s.batches w).todo.lookup id = some p)
    (ht : t.timer = s.timer) (hr : t.recvThread = s.recvThread) (hd : t.destructor = s.destructor)
    (hn : t.now = s.now) (hp : t.pending = s.pending) : t.Settled := by
  refine ⟨?_, ?_, ?_, ?_, ?_, ?_, ?_, ?_⟩
  · intro h
    rw [ht] at h
    have hw : Worker.timer ≠ w := by
      rintro rfl
      exact hnot (hi.timer h)
    rw [hb, Function.update_of_ne hw]
    exact hi.timer h
  · intro h h'
    rw [hr] at h h'
    have hw : Worker.recv ≠ w := by
      rintro rfl
      exact hnot (hi.recv h h')
    rw [hb, Function.update_of_ne hw]
    exact hi.recv h h'
  · intro h
    rw [hd] at h
    have hw : Worker.destructor ≠ w := by
      rintro rfl
      exact hnot (hi.destructor h)
    rw [hb, Function.update_of_ne hw]
    exact hi.destructor h
  · simpa only [hd, ht] using hi.timerJoined
  · simpa only [hd, hr] using hi.recvJoined
  · simpa only [hd, hp] using hi.drained
  · intro id p h
    rw [hn]
    apply hi.expired id p
    rw [hb] at h
    by_cases hw : Worker.timer = w
    · subst hw
      rw [Function.update_self] at h
      exact htodo id p h
    · rwa [Function.update_of_ne hw] at h
  · intro w' h
    apply hi.reasons
    rw [hb] at h
    by_cases hw : w' = w
    · subst hw
      rwa [Function.update_self, hf] at h
    · rwa [Function.update_of_ne hw] at h

lemma Settled.step (hi : s.Settled) (hcalled : s.Called) (hlocked : s.Locked)
    (h : s.step env a = some t) :
    t.Settled := by
  have hrecv : (s.batches .recv).failed ≠ some .rpcTimeout := fun h => nomatch hi.reasons _ h
  obtain ⟨he, rfl⟩ := step_eq h
  cases a with
  | prepare c inv =>
    rcases s.prepare_cases c env inv with hp | ⟨call, -, -, -, hp⟩ <;> rw [effect, hp] <;>
      exact hi.frame rfl rfl rfl rfl rfl (.inl rfl)
  | connect c =>
    simp only [effect, Channel.connect]
    split_ifs <;> exact hi.frame rfl rfl rfl rfl rfl (.inl rfl)
  | join c =>
    simp only [effect, Channel.join]
    split_ifs with hj
    · exact hi.frame rfl rfl rfl rfl rfl (.inl rfl)
    · have hdone : (s.batches .recv).Done := by
        rcases he.2 with hr | hr | hr
        · exact hi.recv (by simp [hr]) (by simp [hr])
        · exact hi.recv (by simp [hr]) (by simp [hr])
        · have hn : s.recvThread = none := by
            by_contra hn
            exact hj ⟨hn, hr⟩
          exact hi.recv (by simp [hn]) (by simp [hn])
      exact ⟨hi.timer, fun _ _ => hdone, hi.destructor, hi.timerJoined, fun _ => rfl, hi.drained,
        hi.expired,
        hi.reasons⟩
  | openConnection c result =>
    simp only [Enabled] at he
    rcases s.openConnection_cases c result with ⟨reason, -, ho⟩ | ⟨-, ho⟩ <;> rw [effect, ho]
    · exact hi.frame rfl rfl rfl rfl rfl (.inl rfl)
    · have hn := hlocked.joined c he
      have halive : s.destructor = .alive := hcalled.alive (c := c) (by simp [he])
      refine ⟨hi.timer, ?_, hi.destructor, hi.timerJoined, ?_, hi.drained, hi.expired, hi.reasons⟩
      · exact fun _ _ => hi.recv (by simp [hn]) (by simp [hn])
      · simp [goto, setCall, halive]
  | register c =>
    simp only [Enabled] at he
    exact hi.frame rfl rfl rfl rfl rfl (.inr (hcalled.alive (c := c) (by simp [he])))
  | send c ret =>
    obtain ⟨call, -, -, -, mtx, hs⟩ := s.send_cases c ret he.1
    rw [effect, hs]
    exact hi.frame rfl rfl rfl rfl rfl (.inl rfl)
  | undo c =>
    simp only [Enabled] at he
    have halive := hcalled.alive (c := c) (by simp [he])
    simp only [effect, Channel.undo, goto, setCall, record]
    split <;> exact hi.frame rfl rfl rfl rfl rfl (.inr halive)
  | recvTop =>
    simp only [Enabled] at he
    have hdone := hi.recv (by simp [he]) (by simp [he])
    simp only [effect, Channel.recvTop]
    split_ifs <;> exact hi.recv_moves (by simp [he]) (fun _ _ => hdone) (fun _ _ => rfl) hrecv rfl
      rfl rfl
  | recvFail =>
    have hdone := hi.recv (by simp [he.1]) (by simp [he.1])
    exact hi.recv_moves (by simp [he.1]) (fun _ _ => hdone) (fun _ _ => rfl) hrecv rfl rfl rfl
  | recvNext | recvFinish =>
    exact hi.recv_moves (by simp [he.1]) (fun _ _ => he.2) (fun _ _ => rfl) hrecv rfl rfl rfl
  | recvTake id body =>
    have hdone := hi.recv (by simp [he.1]) (by simp [he.1])
    simp only [effect, Channel.recvTake, take, record, setBatch]
    split
    · exact hi.recv_moves (by simp [he.1]) (fun _ _ => hdone) (fun _ _ => rfl) hrecv rfl rfl rfl
    · refine hi.recv_moves (by simp [he.1]) (fun hc => absurd rfl hc)
        (fun w hw => Function.update_of_ne hw _ _) ?_
        rfl rfl rfl
      simp only [Function.update_self]
      split_ifs <;> simp
  | recvFailAll =>
    simp only [Enabled] at he
    simp only [effect, failAllPending, take, setBatch, record]
    refine hi.recv_moves (by simp [he]) (fun _ hc => absurd rfl hc)
      (fun w hw => Function.update_of_ne hw _ _) ?_
      rfl rfl rfl
    simp
  | tick =>
    have hnot : s.destructor ∉ [.tearingDown, .joiningRecv, .failing, .draining, .returned] := by
      intro hd
      simpa [he.1] using hi.timerJoined hd
    simp only [effect, Channel.tick, take, record, setBatch]
    split_ifs with hn
    · exact hi.frame rfl rfl rfl rfl rfl (.inl rfl)
    · refine ⟨fun hc => absurd rfl hc, hi.recv, hi.destructor, fun h => absurd h hnot,
        hi.recvJoined, ?_, ?_, ?_⟩
      · intro h
        have hd : s.destructor ∈ [.draining, .returned] := h
        exact absurd (List.mem_append_right [DestructorPc.tearingDown, .joiningRecv, .failing] hd)
          hnot
      · intro id p hp
        exact (lookup_select.mp hp).2
      · intro w hw
        by_cases hwt : w = .timer
        · exact hwt
        · exact hi.reasons w (by simpa [take, setBatch, record, hwt] using hw)
  | timerNext =>
    refine ⟨fun _ => he.2, hi.recv, hi.destructor, fun h => ?_, hi.recvJoined, hi.drained,
      hi.expired, hi.reasons⟩
    simpa [he.1] using hi.timerJoined h
  | timerExit =>
    have hdone := hi.timer (by simp [he.1])
    exact ⟨fun _ => hdone, hi.recv, hi.destructor, fun _ => rfl, hi.recvJoined, hi.drained,
      hi.expired, hi.reasons⟩
  | runDone w id =>
    obtain ⟨p, hp⟩ := Option.ne_none_iff_exists'.mp he.2
    have hnot : ¬ (s.batches w).Done := fun hdone => he.2 (hdone.lookup id)
    simp only [effect, Channel.runDone, hp]
    refine hi.work (w := w) hnot rfl rfl ?_ rfl rfl rfl rfl rfl
    intro id' p' hp'
    by_cases hid : id' = id
    · subst hid
      simp [AList.lookup_erase] at hp'
    · simpa [AList.lookup_erase_ne hid] using hp'
  | free w =>
    obtain ⟨p, hp, -⟩ := he
    have hnot : ¬ (s.batches w).Done := by
      rintro ⟨-, hr⟩
      simp [hr] at hp
    simp only [effect, Channel.free, Option.mem_def.mp hp]
    exact hi.work (w := w) hnot rfl rfl (fun _ _ h => h) rfl rfl rfl rfl rfl
  | destroy =>
    have hdone := hi.destructor (by simp [he.1])
    exact ⟨hi.timer, hi.recv,
      fun _ => hdone, by simp [effect], by simp [effect], by simp [effect], hi.expired,
      hi.reasons⟩
  | joinTimer =>
    have hdone := hi.destructor (by simp [he.1])
    exact ⟨hi.timer, hi.recv, fun _ => hdone,
      fun _ => he.2, by simp [effect], by simp [effect], hi.expired,
      hi.reasons⟩
  | teardown =>
    have hdone := hi.destructor (by simp [he.1])
    have htimer := hi.timerJoined (by simp [he.1])
    exact ⟨hi.timer, hi.recv, fun _ => hdone,
      fun _ => htimer, by simp [effect], by simp [effect], hi.expired,
      hi.reasons⟩
  | joinRecv =>
    have hdone := hi.destructor (by simp [he.1])
    have htimer := hi.timerJoined (by simp [he.1])
    have hrecv : (s.batches .recv).Done := by
      rcases he.2 with hr | hr
      · exact hi.recv (by simp [hr]) (by simp [hr])
      · exact hi.recv (by simp [hr]) (by simp [hr])
    exact ⟨hi.timer, fun _ _ => hrecv, fun _ => hdone, fun _ => htimer,
      fun _ => rfl, by simp [effect], hi.expired,
      hi.reasons⟩
  | closeAll =>
    simp only [Enabled] at he
    have htimer := hi.timerJoined (by simp [he])
    have hrecv := hi.recvJoined (by simp [he])
    simp only [effect, failAllPending, take, setBatch, record]
    refine ⟨hi.timer, hi.recv, fun hc => absurd rfl hc, fun _ => htimer, fun _ => hrecv,
      fun _ => rfl, hi.expired, ?_⟩
    intro w hw
    by_cases hwd : w = .destructor
    · subst hwd
      simp at hw
    · exact hi.reasons w (by simpa [effect, failAllPending, take, setBatch, record, hwd] using hw)
  | destroyed =>
    have htimer := hi.timerJoined (by simp [he.1])
    have hrecv := hi.recvJoined (by simp [he.1])
    have hdrained := hi.drained (by simp [he.1])
    exact ⟨hi.timer, hi.recv, fun _ => he.2, fun _ => htimer, fun _ => hrecv, fun _ => hdrained,
      hi.expired,
      hi.reasons⟩
  | clock ms =>
    refine ⟨hi.timer, hi.recv, hi.destructor, hi.timerJoined, hi.recvJoined, hi.drained, ?_,
      hi.reasons⟩
    intro id p hp
    have hx := hi.expired id p hp
    simp only [Pending.expired, effect, Option.any_eq_true, decide_eq_true_eq] at hx ⊢
    obtain ⟨d, hd, hle⟩ := hx
    exact ⟨d, hd, decide_eq_true (hle.trans (Nat.le_add_right s.now ms))⟩
  | _ => exact hi.frame rfl rfl rfl rfl rfl (.inl rfl)

def CallPc.Tagged (pc : CallPc) : Prop :=
  pc ∉ [CallPc.absent, .preparing, .failing, .inDone, .returned]

structure Numbered (s : Channel) (order : List ℕ) : Prop where
  next : s.nextId = UInt64.ofNat (1 + order.length)
  nodup : order.Nodup
  begun : ∀ c ∈ order, c < s.started ∧ (s.calls c).pc ≠ .preparing
  ids : ∀ c, CallPc.Tagged (s.calls c).pc → ∃ k, order[k]? = some c ∧
      (s.calls c).requestId = UInt64.ofNat (1 + k)

lemma Numbered.length_le {order : List ℕ} (hi : s.Numbered order) : order.length ≤ s.started := by
  have hsub : order ⊆ List.range s.started := fun c hc => List.mem_range.mpr (hi.begun c hc).1
  simpa using (hi.nodup.subperm hsub).length_le

lemma Numbered.distinct {order : List ℕ} (hi : s.Numbered order) (hlt : s.started < 2 ^ 64)
    {c d : ℕ}
    (hc : CallPc.Tagged (s.calls c).pc) (hd : CallPc.Tagged (s.calls d).pc)
    (hid : (s.calls c).requestId = (s.calls d).requestId) : c = d := by
  obtain ⟨k, hk, hck⟩ := hi.ids c hc
  obtain ⟨l, hl, hdl⟩ := hi.ids d hd
  have hklt := (List.getElem?_eq_some_iff.mp hk).1
  have hllt := (List.getElem?_eq_some_iff.mp hl).1
  have hle := hi.length_le
  rw [hck, hdl] at hid
  have hkl : (1 + k) % 2 ^ 64 = (1 + l) % 2 ^ 64 := by
    simpa using congrArg UInt64.toNat hid
  rw [Nat.mod_eq_of_lt (by omega), Nat.mod_eq_of_lt (by omega)] at hkl
  have hkl' : k = l := by omega
  subst hkl'
  exact Option.some.inj (hk.symm.trans hl)

lemma Numbered.update {order : List ℕ} (hi : s.Numbered order) {call : Call}
    (hpc : call.pc ≠ .preparing)
    (htag : CallPc.Tagged call.pc → CallPc.Tagged (s.calls c).pc)
    (hid : call.requestId = (s.calls c).requestId)
    (hcalls : t.calls = Function.update s.calls c call) (hstarted : t.started = s.started)
    (hnext : t.nextId = s.nextId) : t.Numbered order := by
  refine ⟨hnext ▸ hi.next, hi.nodup, ?_, ?_⟩
  · intro d hd
    rw [hcalls, hstarted]
    by_cases hdc : d = c
    · subst hdc
      exact ⟨(hi.begun d hd).1, by simpa using hpc⟩
    · simpa [hdc] using hi.begun d hd
  · intro d hd
    rw [hcalls] at hd ⊢
    by_cases hdc : d = c
    · subst hdc
      simp only [Function.update_self] at hd ⊢
      rw [hid]
      exact hi.ids d (htag hd)
    · simpa [hdc] using hi.ids d (by simpa [hdc] using hd)

lemma Numbered.allocate {order : List ℕ} (hi : s.Numbered order) (hcalled : s.Called) {call : Call}
    (hpc : (s.calls c).pc = .preparing) (hpc' : call.pc ≠ .preparing)
    (hid : call.requestId = s.nextId)
    (hcalls : t.calls = Function.update s.calls c call) (hstarted : t.started = s.started)
    (hnext : t.nextId = s.nextId + 1) : t.Numbered (order ++ [c]) := by
  have hlt : c < s.started := by
    by_contra hn
    simp [hcalled.absent c (by omega)] at hpc
  have hnew : c ∉ order := fun hc => (hi.begun c hc).2 hpc
  refine ⟨?_, ?_, ?_, ?_⟩
  · rw [hnext, hi.next, List.length_append, List.length_singleton, ← Nat.add_assoc,
      UInt64.ofNat_add _ 1]
    rfl
  · rw [List.nodup_append]
    refine ⟨hi.nodup, by simp, ?_⟩
    rintro d hd e he rfl
    exact hnew (List.mem_singleton.mp he ▸ hd)
  · intro d hd
    rw [hcalls, hstarted]
    by_cases hdc : d = c
    · subst hdc
      exact ⟨hlt, by simpa using hpc'⟩
    · simpa [hdc] using hi.begun d (by simpa [hdc] using hd)
  · intro d hd
    rw [hcalls] at hd ⊢
    by_cases hdc : d = c
    · subst hdc
      refine ⟨order.length, by simp, ?_⟩
      rw [Function.update_self, hid, hi.next]
    · obtain ⟨k, hk, hdk⟩ := hi.ids d (by simpa [hdc] using hd)
      have hklt := (List.getElem?_eq_some_iff.mp hk).1
      refine ⟨k, ?_, by simpa [hdc] using hdk⟩
      rwa [List.getElem?_append_left hklt]

lemma Numbered.step {order : List ℕ} (hi : s.Numbered order) (hcalled : s.Called)
    (h : s.step env a = some t) :
    ∃ order', t.Numbered order' := by
  cases step_calls h with
  | idle hcalls hstarted hid =>
    exact ⟨order, hid ▸ hi.next, hi.nodup, by simpa only [hcalls, hstarted] using hi.begun,
      by simpa only [hcalls] using hi.ids⟩
  | started call hpc herror hcalls hstarted hid halive =>
    refine ⟨order, hid ▸ hi.next, hi.nodup, ?_, ?_⟩
    · intro d hd
      have hlt := (hi.begun d hd).1
      rw [hcalls, hstarted, Function.update_of_ne (by omega)]
      exact ⟨by omega, (hi.begun d hd).2⟩
    · intro d hd
      rw [hcalls] at hd ⊢
      by_cases hdc : d = s.started
      · subst hdc
        simp [CallPc.Tagged, hpc] at hd
      · simpa [hdc] using hi.ids d (by simpa [hdc] using hd)
  | moved c call hmoves hcalls hstarted hid =>
    have hp := hmoves.pc
    refine ⟨order, hi.update ?_ ?_ hmoves.requestId hcalls hstarted hid⟩
    · intro hpc
      cases hs : (s.calls c).pc <;> simp [hs, hpc, CallPc.next] at hp
    · intro ht
      cases hs : (s.calls c).pc <;> simp [hs, CallPc.next] at hp <;> simp_all [CallPc.Tagged]
  | allocated c call hpc hpc' hrequest herror hcalls hstarted hid =>
    refine ⟨order ++ [c], hi.allocate hcalled hpc ?_ hrequest hcalls hstarted hid⟩
    intro hp
    simp [hp] at hpc'

end KimRpc.Client.Channel
