import KimRpc.Client.Completion

/-! Calls left in the table of a dead connection: when the receive loop has ended
and drained the table, who may still be waiting in it. -/

namespace KimRpc.Client.Channel

open Library.Tables Library.Runs

variable {env : ChannelEnv} {s t : Channel} {a : Action} {c : ℕ}

lemma pending_step (h : s.step env a = some t) {id : UInt64} {p : Pending}
    (hp : t.pending.lookup id = some p) :
    s.pending.lookup id = some p ∨
      a = .register p.call ∧ (s.calls p.call).pc = .registering ∧
      (s.calls p.call).requestId = id := by
  obtain ⟨he, rfl⟩ := step_eq h
  cases a with
  | prepare c inv =>
    rcases s.prepare_cases c env inv with hc | ⟨call, -, -, -, hc⟩ <;> rw [effect, hc] at hp <;>
      exact .inl hp
  | connect c =>
    simp only [effect, Channel.connect] at hp
    split_ifs at hp <;> exact .inl hp
  | join c =>
    simp only [effect, Channel.join] at hp
    split_ifs at hp <;> exact .inl hp
  | openConnection c result =>
    rcases s.openConnection_cases c result with ⟨reason, -, ho⟩ | ⟨-, ho⟩ <;>
      rw [effect, ho] at hp <;> exact .inl hp
  | register c =>
    simp only [effect, Channel.register] at hp
    by_cases hid : id = (s.calls c).requestId
    · subst hid
      rw [AList.lookup_insert, Option.some.injEq] at hp
      subst hp
      exact .inr ⟨rfl, he, rfl⟩
    · rw [AList.lookup_insert_ne hid] at hp
      exact .inl hp
  | send c ret =>
    obtain ⟨call, -, -, -, mtx, hs⟩ := s.send_cases c ret he.1
    rw [effect, hs] at hp
    exact .inl hp
  | undo c =>
    simp only [effect, Channel.undo] at hp
    split at hp
    · exact .inl hp
    · by_cases hid : id = (s.calls c).requestId
      · subst hid
        simp [AList.lookup_erase] at hp
      · exact .inl (by simpa [AList.lookup_erase_ne hid] using hp)
  | recvTop =>
    simp only [effect, Channel.recvTop] at hp
    split_ifs at hp <;> exact .inl hp
  | recvTake i body =>
    simp only [effect, Channel.recvTake] at hp
    split at hp
    · exact .inl hp
    · rename_i pend hpend
      exact .inl ((splits_erase hpend).rest hp)
  | recvFailAll | closeAll => exact .inl ((splits_all s.pending).rest hp)
  | tick =>
    simp only [effect, Channel.tick] at hp
    split_ifs at hp
    · exact .inl hp
    · exact .inl ((splits_select s.pending _).rest hp)
  | runDone w i =>
    simp only [effect, Channel.runDone] at hp
    split at hp <;> exact .inl hp
  | free w =>
    simp only [effect, Channel.free] at hp
    split at hp <;> exact .inl hp
  | _ => exact .inl hp

def Keyed (s : Channel) : Prop :=
  ∀ id p, s.pending.lookup id = some p → (s.calls p.call).requestId = id ∧
  (s.calls p.call).pc ∉ early

lemma next_not_early {pc pc' : CallPc} (h : pc' ∈ pc.next) (hpc : pc ∉ early) : pc' ∉ early := by
  cases pc <;> simp_all [CallPc.next, early] <;> grind

lemma moved_on (hcalled : s.Called) (h : s.step env a = some t) (hpc : (s.calls c).pc ∉ early) :
    (t.calls c).requestId = (s.calls c).requestId ∧ (t.calls c).pc ∉ early := by
  cases step_calls h with
  | idle hcalls =>
    rw [hcalls]
    exact ⟨rfl, hpc⟩
  | started call _ _ hcalls =>
    have hne : c ≠ s.started := by
      rintro rfl
      simp [hcalled.absent _ le_rfl, early] at hpc
    simpa [hcalls, hne] using hpc
  | moved d call hmoves hcalls =>
    by_cases hcd : c = d
    · subst hcd
      simpa [hcalls] using And.intro hmoves.requestId (next_not_early hmoves.pc hpc)
    · simpa [hcalls, hcd] using hpc
  | allocated d call hd _ _ _ hcalls =>
    have hne : c ≠ d := by
      rintro rfl
      simp [hd, early] at hpc
    simpa [hcalls, hne] using hpc

lemma Keyed.step (hi : s.Keyed) (hcalled : s.Called) (h : s.step env a = some t) : t.Keyed := by
  intro id p hp
  rcases pending_step h hp with hs | ⟨rfl, hpc, hid⟩
  · obtain ⟨hid, hpc⟩ := hi id p hs
    obtain ⟨hid', hpc'⟩ := moved_on hcalled h hpc
    exact ⟨hid'.trans hid, hpc'⟩
  · obtain ⟨-, rfl⟩ := step_eq h
    simp [effect, Channel.register, goto, setCall, record, early, hid]

lemma keyed_run {ok : Channel → Action → Prop} {as : List Action}
    (h : Run (Channel.step env) ok constructed as t) :
    t.Keyed := by
  refine h.invariant_with (K := Sound) ?_ (fun _ _ hr => sound_run hr)
    (fun _ _ _ hs _ hi _ hstep => hi.step hs.called hstep)
  simp [Keyed, constructed]

/-- No call registers once the receive loop of the connection has swapped the table out
for the last time. -/
def registersInTime (s : Channel) : Action → Bool
  | .register _ => s.recvThread ≠ some .draining ∧ s.recvThread ≠ some .finished
  | _ => true

def unsent : List CallPc := [.locking, .sending, .undoing]

structure Swept (s : Channel) : Prop where
  drained : s.recvThread = some .draining ∨ s.recvThread = some .finished → s.pending = ∅
  closed : s.recvThread = none → s.clientfd = none
  waiting : s.recvThread = none → ∀ id p, s.pending.lookup id = some p →
      (s.calls p.call).pc ∈ unsent
  torn : s.destructor ∈ [.joiningRecv, .failing, .draining, .returned] → s.clientfd = none

lemma Swept.frame (hi : s.Swept) (hr : t.recvThread = s.recvThread)
    (hf : t.clientfd = s.clientfd ∨ t.clientfd = none)
    (hd : t.destructor = s.destructor) (hp : t.pending = s.pending)
    (hc : ∀ c, (t.calls c).pc = (s.calls c).pc ∨ (s.calls c).pc ∉ unsent ∨
      (t.calls c).pc ∈ unsent) : t.Swept := by
  have hfd : s.clientfd = none → t.clientfd = none := by
    intro hn
    rcases hf with h | h
    · rw [h, hn]
    · exact h
  refine ⟨?_, ?_, ?_, ?_⟩
  · simpa only [hr, hp] using hi.drained
  · exact fun h => hfd (hi.closed (hr ▸ h))
  · intro h id p hl
    rw [hr] at h
    rw [hp] at hl
    have hu := hi.waiting h id p hl
    rcases hc p.call with h' | h' | h'
    · rwa [h']
    · exact absurd hu h'
    · exact h'
  · exact fun h => hfd (hi.torn (hd ▸ h))

lemma Swept.frame_call (hi : s.Swept) {call : Call}
    (hcalls : t.calls = Function.update s.calls c call)
    (hpc : (s.calls c).pc ∉ unsent ∨ call.pc ∈ unsent) (hr : t.recvThread = s.recvThread)
    (hf : t.clientfd = s.clientfd ∨ t.clientfd = none) (hd : t.destructor = s.destructor)
    (hp : t.pending = s.pending) : t.Swept := by
  refine hi.frame hr hf hd hp (fun d => ?_)
  by_cases hdc : d = c
  · subst hdc
    rw [hcalls, Function.update_self]
    exact .inr hpc
  · exact .inl (by rw [hcalls, Function.update_of_ne hdc])

lemma Swept.receiving (hi : s.Swept) {pc : RecvPc} (hr : t.recvThread = some pc)
    (hpc : pc ≠ .draining ∧ pc ≠ .finished) (hf : t.clientfd = s.clientfd)
    (hd : t.destructor = s.destructor) :
    t.Swept := by
  refine ⟨?_, by simp [hr], by simp [hr], ?_⟩
  · rintro (h | h)
    · exact absurd (Option.some.inj (hr.symm.trans h)) hpc.1
    · exact absurd (Option.some.inj (hr.symm.trans h)) hpc.2
  · rw [hd, hf]
    exact hi.torn

lemma Swept.step (hi : s.Swept) (hs : s.Sound) (hk : s.Keyed) (hok : s.registersInTime a = true)
    (h : s.step env a = some t) : t.Swept := by
  obtain ⟨he, rfl⟩ := step_eq h
  cases a with
  | start parent =>
    have habs := hs.called.absent s.started le_rfl
    exact hi.frame_call rfl (.inl (by simp [habs, unsent])) rfl (.inl rfl) rfl rfl
  | prepare c inv =>
    simp only [Enabled] at he
    rcases s.prepare_cases c env inv with hp | ⟨call, -, -, -, hp⟩ <;> rw [effect, hp] <;>
      exact hi.frame_call rfl (.inl (by simp [he, unsent])) rfl (.inl rfl) rfl rfl
  | connect c =>
    simp only [effect, Channel.connect]
    split_ifs
    · exact hi.frame_call rfl (.inl (by simp [he.1, unsent])) rfl (.inl rfl) rfl rfl
    · exact hi.frame_call rfl (.inl (by simp [he.1, unsent])) rfl (.inr rfl) rfl rfl
  | join c =>
    have hclosed := hs.locked.closed (by simp [(hs.locked.holder c).mpr (.inl he.1)])
    simp only [effect, Channel.join]
    split_ifs with hj
    · exact ⟨hi.drained, hi.closed, hi.waiting, hi.torn⟩
    · refine ⟨by simp, fun _ => hclosed, ?_, fun _ => hclosed⟩
      intro _ id p hp
      by_cases hn : s.recvThread = none
      · have hu := hi.waiting hn id p hp
        have hne : p.call ≠ c := by
          rintro rfl
          simp [he.1, unsent] at hu
        simpa [goto, setCall, hne] using hu
      · have hf : s.recvThread = some .finished := by
          rcases he.2 with h | h | h
          · exact absurd h hn
          · exact h
          · exact absurd ⟨hn, h⟩ hj
        have hempty : s.pending = ∅ := hi.drained (.inr hf)
        simp [goto, setCall, hempty, AList.lookup_empty] at hp
  | openConnection c result =>
    simp only [Enabled] at he
    rcases s.openConnection_cases c result with ⟨reason, -, ho⟩ | ⟨-, ho⟩ <;> rw [effect, ho]
    · exact hi.frame_call rfl (.inl (by simp [he, unsent])) rfl (.inl rfl) rfl rfl
    · have halive : s.destructor = .alive := hs.called.alive (c := c) (by simp [he])
      refine ⟨by simp, by simp, by simp, ?_⟩
      simp [goto, setCall, halive]
  | register c =>
    simp only [Enabled] at he
    simp only [registersInTime, decide_eq_true_eq] at hok
    refine ⟨?_, hi.closed, ?_, hi.torn⟩
    · rintro (h | h)
      · exact absurd h hok.1
      · exact absurd h hok.2
    · intro hn id p hp
      by_cases hpc : p.call = c
      · simp [effect, Channel.register, record, goto, setCall, hpc, unsent]
      · have hold : s.pending.lookup id = some p := by
          rcases pending_step h hp with h' | ⟨h', -, -⟩
          · exact h'
          · exact absurd (Action.register.inj h').symm hpc
        simpa [effect, Channel.register, record, goto, setCall, hpc] using hi.waiting hn id p hold
  | lockSend c => exact hi.frame_call rfl (.inr (by simp [unsent])) rfl (.inl rfl) rfl rfl
  | send c ret =>
    obtain ⟨call, -, -, -, mtx, hsend⟩ := s.send_cases c ret he.1
    have hsome : s.recvThread ≠ none := fun hn => he.2.1 (hi.closed hn)
    rw [effect, hsend]
    exact ⟨hi.drained, hi.closed, fun hn => absurd hn hsome, hi.torn⟩
  | sendFail c errno => exact hi.frame_call rfl (.inr (by simp [unsent])) rfl (.inl rfl) rfl rfl
  | undo c =>
    simp only [Enabled] at he
    -- the entry of the call that leaves `undoing` is no longer in the table
    have hother : ∀ id p, (s.undo c).pending.lookup id = some p → p.call ≠ c := by
      rintro id p hp rfl
      have hold : s.pending.lookup id = some p := by
        rcases pending_step h hp with h' | ⟨h', -, -⟩
        · exact h'
        · simp at h'
      have hid := (hk id p hold).1
      subst hid
      simp [Channel.undo, hold, AList.lookup_erase] at hp
    have hwait : s.recvThread = none → ∀ id p, (s.undo c).pending.lookup id = some p →
        ((s.undo c).calls p.call).pc ∈ unsent := by
      intro hn id p hp
      have hne := hother id p hp
      have hold : s.pending.lookup id = some p := by
        rcases pending_step h hp with h' | ⟨h', -, -⟩
        · exact h'
        · simp at h'
      have hu := hi.waiting hn id p hold
      rw [Channel.undo]
      split <;> simpa [goto, setCall, record, hne] using hu
    have hempty : s.recvThread = some .draining ∨ s.recvThread = some .finished →
        (s.undo c).pending = ∅ := by
      intro hr
      have hd := hi.drained hr
      simp [Channel.undo, hd, AList.lookup_empty, goto, setCall]
    simp only [effect]
    cases hp : s.pending.lookup (s.calls c).requestId with
    | none =>
      simp only [Channel.undo, hp] at hwait hempty ⊢
      exact ⟨hempty, hi.closed, hwait, hi.torn⟩
    | some p =>
      simp only [Channel.undo, hp] at hwait hempty ⊢
      exact ⟨hempty, hi.closed, hwait, hi.torn⟩
  | fail c =>
    simp only [Enabled] at he
    exact hi.frame_call rfl (.inl (by simp [he, unsent])) rfl (.inl rfl) rfl rfl
  | «return» c => exact hi.frame_call rfl (.inl (by simp [he.1, unsent])) rfl (.inl rfl) rfl rfl
  | recvTop =>
    simp only [effect, Channel.recvTop]
    split_ifs <;> exact hi.receiving rfl (by simp) rfl rfl
  | recvTake id body =>
    simp only [effect, Channel.recvTake, take, setBatch, record]
    split <;> exact hi.receiving rfl (by simp) rfl rfl
  | recvFail | recvNext => exact hi.receiving rfl (by simp) rfl rfl
  | recvFailAll =>
    simp only [effect, failAllPending, take, setBatch, record]
    exact ⟨fun _ => rfl, by simp, by simp, hi.torn⟩
  | recvFinish =>
    exact ⟨fun _ => hi.drained (.inl he.1), by simp [effect], by simp [effect], hi.torn⟩
  | tick =>
    simp only [effect, Channel.tick, take, setBatch, record]
    split_ifs with hn
    · exact hi.frame rfl (.inl rfl) rfl rfl (fun _ => .inl rfl)
    · refine ⟨?_, hi.closed, ?_, hi.torn⟩
      · intro hr
        have hd : s.pending = ∅ := hi.drained hr
        simp [hd, select] at hn
      · intro hr id p hp
        exact hi.waiting hr id p ((splits_select s.pending _).rest hp)
  | runDone w i =>
    simp only [effect, Channel.runDone]
    split <;> exact hi.frame rfl (.inl rfl) rfl rfl (fun _ => .inl rfl)
  | free w =>
    simp only [effect, Channel.free]
    split <;> exact hi.frame rfl (.inl rfl) rfl rfl (fun _ => .inl rfl)
  | destroy | joinTimer => exact ⟨hi.drained, hi.closed, hi.waiting, by simp [effect]⟩
  | teardown => exact ⟨hi.drained, fun _ => rfl, hi.waiting, fun _ => rfl⟩
  | joinRecv =>
    have hclosed := hi.torn (by simp [he.1])
    refine ⟨by simp [effect], fun _ => hclosed, ?_, fun _ => hclosed⟩
    intro _ id p hp
    rcases he.2 with hr | hr
    · exact hi.waiting hr id p hp
    · have hempty : s.pending = ∅ := hi.drained (.inr hr)
      simp [effect, hempty, AList.lookup_empty] at hp
  | closeAll =>
    simp only [Enabled] at he
    have hclosed := hi.torn (by simp [he])
    simp only [effect, failAllPending, take, setBatch, record]
    refine ⟨fun _ => rfl, fun _ => hclosed, ?_, fun _ => hclosed⟩
    intro _ id p hp
    simp [AList.lookup_empty] at hp
  | destroyed =>
    have hclosed := hi.torn (by simp [he.1])
    exact ⟨hi.drained, hi.closed, hi.waiting, fun _ => hclosed⟩
  | _ => exact hi.frame rfl (.inl rfl) rfl rfl (fun _ => .inl rfl)

lemma swept_run {as : List Action}
    (h : Run (Channel.step env) (fun u a => u.registersInTime a = true) constructed as t) :
    t.Swept := by
  refine h.invariant_with (K := fun u => u.Sound ∧ u.Keyed) ?_
    (fun _ _ hr => ⟨sound_run hr, keyed_run hr⟩)
    (fun _ _ _ hs _ hi hok hstep => hi.step hs.1 hs.2 hok hstep)
  exact ⟨fun _ => rfl, fun _ => rfl, by simp [constructed], by simp [constructed]⟩

/-- Some call that has returned waits in the table of a connection whose receive loop
has ended, or of a channel that has joined it and opened no other. -/
def Orphaned (s : Channel) : Prop :=
  (s.recvThread = some .finished ∨ s.recvThread = none) ∧
    ∃ e ∈ s.pending.entries, s.Returned e.2.call

instance (s : Channel) : Decidable s.Orphaned :=
  inferInstanceAs (Decidable (_ ∧ ∃ e ∈ s.pending.entries, _))

/-- The peer closes between `ensureConnected` and the registration of the call, and the
send on the half-closed socket succeeds. -/
def orphanRun : List Action :=
  [.setTimeoutMs 0, .start none, .prepare 0 (sampleInvocation "10.0.0.1:80"), .connect 0, .join 0,
    .openConnection 0 .connected, .recvTop, .recvFail, .recvFailAll, .recvFinish, .register 0,
    .lockSend 0, .send 0 12]

theorem orphaned_sample : ∃ t, Run (Channel.step sampleEnv) Any constructed orphanRun t ∧
    t.Orphaned ∧
    t.running = false ∧ t.pending.lookup 1 = some ⟨0, none⟩ ∧ (t.calls 0).pc = .sent := by
  obtain ⟨t, ht, hd⟩ : ∃ t, exec (Channel.step sampleEnv) constructed orphanRun = some t ∧
      decide (t.Orphaned ∧ t.running = false ∧ t.pending.lookup 1 = some ⟨0, none⟩ ∧
        (t.calls 0).pc = .sent) = true :=
    exec_any (by decide +kernel)
  exact ⟨t, .of_exec ht (by decide +kernel), of_decide_eq_true hd⟩

/-- When every call registers in time, no call that has returned is left with the timer
alone, or with nobody. -/
theorem no_orphan (env : ChannelEnv) {as : List Action} {t : Channel}
    (h : Run (Channel.step env) (fun u a => u.registersInTime a = true) constructed as t) :
    ¬ t.Orphaned := by
  have hi := swept_run h
  rintro ⟨hr, ⟨id, p⟩, he, hret⟩
  have hp : t.pending.lookup id = some p := mem_lookup_entries.mpr he
  rcases hr with hr | hr
  · have hempty : t.pending = ∅ := hi.drained (.inr hr)
    simp [hempty, AList.lookup_empty] at hp
  · have hu := hi.waiting hr id p hp
    rcases hret with h' | h' <;> simp [h', unsent] at hu

def inTimeRun : List Action :=
  sampleCall 0 "10.0.0.1:80" ++
    [.recvTop, .recvFail, .recvFailAll, .runDone .recv 1, .free .recv, .recvFinish]

theorem no_orphan_sample : ∃ t, exec (Channel.step sampleEnv) constructed inTimeRun = some t ∧
    t.recvThread = some .finished ∧ (t.calls 0).pc = .sent ∧ ¬ t.Orphaned := by
  obtain ⟨t, ht, hd⟩ : ∃ t, exec (Channel.step sampleEnv) constructed inTimeRun = some t ∧
      decide (t.recvThread = some .finished ∧ (t.calls 0).pc = .sent) = true :=
        exec_any (by decide +kernel)
  obtain ⟨hr, hc⟩ := of_decide_eq_true hd
  exact ⟨t, ht, hr, hc, no_orphan sampleEnv (.of_exec ht (by decide +kernel))⟩

end KimRpc.Client.Channel
