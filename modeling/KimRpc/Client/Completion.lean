import KimRpc.Client.Threads

/-! Every call is completed once: each step keeps the books, so in every run the
events of a call are those of one life, and the destructor leaves none open. -/

namespace KimRpc.Client.Channel

open Library.Tables Library.Runs

variable {env : ChannelEnv} {s t : Channel} {a : Action} {c : ℕ}

def early : List CallPc := [.absent, .preparing, .connecting, .joining, .opening, .registering]

def late : List CallPc := [.locking, .sending, .undoing, .sent]

lemma within_early {pc pc' : CallPc} (h : pc ∈ early) (h' : pc' ∈ .failing :: early) :
    pc.Within pc' := by
  intro life hl
  cases life with
  | unregistered => simpa [Life.pcs, early, or_comm, or_left_comm, or_assoc] using h'
  | _ => simp_all [Life.pcs, early] <;> grind

lemma within_late {pc pc' : CallPc} (h : pc ∈ late) (h' : pc' ∈ late) : pc.Within pc' := by
  intro life hl
  cases life <;> simp_all [Life.pcs, late] <;> grind

lemma within_done : CallPc.inDone.Within .returned := by
  intro life hl
  cases life <;> simp_all [Life.pcs]

lemma tagged_late {pc : CallPc} (h : pc ∈ late) : CallPc.Tagged pc := by
  simp only [late, List.mem_cons, List.not_mem_nil, or_false] at h
  rcases h with rfl | rfl | rfl | rfl <;> simp [CallPc.Tagged]

lemma Books.arrived {life : ℕ → Life} (hb : s.Books life) (id : UInt64) (body : Wire.Bytes) :
    (s.record [.arrived id body]).Books life := by
  refine ⟨?_, hb.table, hb.todo, hb.running, hb.stands⟩
  intro c
  rw [record, history_append, hb.events]
  simp [history, Event.call]

lemma Books.step {life : ℕ → Life} {order : List ℕ} (hb : s.Books life) (hset : s.Settled)
    (hcalled : s.Called)
    (hnum : s.Numbered order) (hlt : s.started < 2 ^ 64) (h : s.step env a = some t) :
    ∃ life', t.Books life' := by
  obtain ⟨he, rfl⟩ := step_eq h
  cases a with
  | start parent =>
    have habs := hcalled.absent s.started le_rfl
    exact ⟨life, hb.update_pc rfl rfl rfl rfl (.inr (hb.unregistered (by simp [habs])))
      (within_early (by simp [habs, early]) (by simp [early]))⟩
  | prepare c inv =>
    simp only [Enabled] at he
    have hl := hb.unregistered (c := c) (by simp [he])
    rcases s.prepare_cases c env inv with hp | ⟨call, hpc, -, -, hp⟩ <;> rw [effect, hp]
    · exact ⟨life, hb.update_pc rfl rfl rfl rfl (.inr hl)
        (within_early (by simp [he, early]) (by simp [early]))⟩
    · refine ⟨life, hb.update_pc rfl rfl rfl rfl (.inr hl) (within_early (by simp [he, early]) ?_)⟩
      rcases hpc with hpc | hpc <;> simp [hpc, early]
  | connect c =>
    simp only [effect, Channel.connect]
    split_ifs <;>
      exact ⟨life, hb.update_pc rfl rfl rfl rfl (.inl rfl)
        (within_early (by simp [he.1, early]) (by simp [early]))⟩
  | join c =>
    simp only [effect, Channel.join]
    split_ifs
    · exact ⟨life, hb.same_calls rfl rfl rfl rfl⟩
    · exact ⟨life, hb.update_pc rfl rfl rfl rfl (.inl rfl)
        (within_early (by simp [he.1, early]) (by simp [early]))⟩
  | openConnection c result =>
    simp only [Enabled] at he
    rcases s.openConnection_cases c result with ⟨reason, -, ho⟩ | ⟨-, ho⟩ <;> rw [effect, ho] <;>
      exact ⟨life, hb.update_pc rfl rfl rfl rfl (.inl rfl)
        (within_early (by simp [he, early]) (by simp [early]))⟩
  | register c =>
    simp only [Enabled] at he
    refine ⟨_, hb.register he ?_⟩
    by_contra hn
    obtain ⟨p, hp⟩ := Option.ne_none_iff_exists'.mp hn
    obtain ⟨hpc, hid⟩ := hb.pending_call hp
    have heq := hnum.distinct hlt (tagged_late hpc) (by simp [CallPc.Tagged, he]) hid
    simp [heq, he] at hpc
  | lockSend c =>
    exact ⟨life, hb.update_pc rfl rfl rfl rfl (.inl rfl)
      (within_late (by simp [he.1, late]) (by simp [late]))⟩
  | send c ret =>
    obtain ⟨call, hpc, hid, -, mtx, hs⟩ := s.send_cases c ret he.1
    rw [effect, hs]
    refine ⟨life, hb.update_pc rfl rfl rfl rfl (.inl hid) (within_late (by simp [he.1, late]) ?_)⟩
    simp only [List.mem_cons, List.not_mem_nil, or_false] at hpc
    rcases hpc with hpc | hpc <;> simp [hpc, late]
  | sendFail c errno =>
    simp only [Enabled] at he
    exact ⟨life, hb.update_pc rfl rfl rfl rfl (.inl rfl)
      (within_late (by simp [he, late]) (by simp [late]))⟩
  | undo c =>
    simp only [Enabled] at he
    refine hb.undo he (fun p hp => ?_)
    obtain ⟨hpc, hid⟩ := hb.pending_call hp
    exact hnum.distinct hlt (tagged_late hpc) (by simp [CallPc.Tagged, he]) hid
  | fail c => exact hb.fail he
  | «return» c =>
    exact ⟨life, hb.update_pc rfl rfl rfl rfl (.inl rfl) (by rw [he.1]; exact within_done)⟩
  | recvTop =>
    simp only [effect, Channel.recvTop]
    split_ifs <;> exact ⟨life, hb.same_calls rfl rfl rfl rfl⟩
  | recvTake id body =>
    have hdone := hset.recv (by simp [he.1]) (by simp [he.1])
    simp only [effect, Channel.recvTake]
    split
    · exact ⟨life, (hb.arrived id body).same_calls rfl rfl rfl rfl⟩
    · rename_i pend hp
      exact ⟨_, ((hb.arrived id body).take _ _ hdone (splits_erase hp)).same_calls rfl rfl rfl rfl⟩
  | recvFailAll =>
    simp only [Enabled] at he
    have hdone := hset.recv (by simp [he]) (by simp [he])
    exact ⟨_, (hb.take _ _ hdone (splits_all s.pending)).same_calls rfl rfl rfl rfl⟩
  | tick =>
    have hdone := hset.timer (by simp [he.1])
    simp only [effect, Channel.tick]
    split_ifs
    · exact ⟨life, hb⟩
    · exact ⟨_, (hb.take _ _ hdone (splits_select s.pending _)).same_calls rfl rfl rfl rfl⟩
  | runDone w id =>
    obtain ⟨p, hp⟩ := Option.ne_none_iff_exists'.mp he.2
    exact ⟨_, hb.runDone he.1 hp⟩
  | free w =>
    obtain ⟨p, hp, -⟩ := he
    exact hb.free hp
  | closeAll =>
    simp only [Enabled] at he
    have hdone := hset.destructor (by simp [he])
    exact ⟨_, (hb.take _ _ hdone (splits_all s.pending)).same_calls rfl rfl rfl rfl⟩
  | recv _ | recvFail | recvNext | recvFinish | timerNext | timerExit | destroy | joinTimer |
      teardown | joinRecv
  | destroyed | clock _ | setTimeoutMs _ => exact ⟨life, hb.same_calls rfl rfl rfl rfl⟩

structure Sound (s : Channel) : Prop where
  called : s.Called
  locked : s.Locked
  settled : s.Settled
  numbered : ∃ order, s.Numbered order
  books : s.started < 2 ^ 64 → ∃ life, s.Books life

lemma sound_constructed : constructed.Sound where
  called := ⟨fun _ _ => rfl, by simp [constructed], fun h => absurd rfl h⟩
  locked := ⟨by simp [constructed, Holds], fun h => absurd rfl h, by simp [constructed]⟩
  settled := by
    have hdone : (({} : Channel).batches .recv).Done := ⟨rfl, rfl⟩
    refine ⟨fun _ => hdone, fun _ _ => hdone, fun _ => hdone, ?_, ?_, ?_, ?_, ?_⟩ <;>
      simp [constructed]
  numbered := ⟨[], rfl, List.nodup_nil, by simp, by simp [constructed, CallPc.Tagged]⟩
  books _ := by
    refine ⟨fun _ => .unregistered, ?_, ?_, ?_, ?_, ?_⟩ <;>
      simp [constructed, history, Life.history, Life.pcs]

lemma started_step (h : s.step env a = some t) : s.started ≤ t.started := by
  cases step_calls h <;> omega

lemma Sound.step (hi : s.Sound) (h : s.step env a = some t) : t.Sound where
  called := hi.called.step h
  locked := hi.locked.step hi.called h
  settled := hi.settled.step hi.called hi.locked h
  numbered := by
    obtain ⟨order, ho⟩ := hi.numbered
    exact ho.step hi.called h
  books hlt := by
    have hs := started_step h
    obtain ⟨order, ho⟩ := hi.numbered
    obtain ⟨life, hl⟩ := hi.books (by omega)
    exact hl.step hi.settled hi.called ho (by omega) h

lemma sound_run {ok : Channel → Action → Prop} {as : List Action}
    (h : Run (Channel.step env) ok constructed as t) :
    t.Sound := h.invariant sound_constructed (fun _ _ _ hi _ hs => hi.step hs)

lemma log_step (h : s.step env a = some t) : ∃ events, t.log = s.log ++ events ∧
    ∀ q c f time, .done q c f time ∈ events → f = (s.calls c).error ∨
      ∃ w id p, (s.batches w).todo.lookup id = some p ∧ p.call = c ∧ f = (s.batches w).failed ∧
      time = s.now := by
  have quiet : t.log = s.log → ∃ events, t.log = s.log ++ events ∧
      ∀ q c f time, .done q c f time ∈ events →
      f = (s.calls c).error ∨
      ∃ w id p, (s.batches w).todo.lookup id = some p ∧ p.call = c ∧ f = (s.batches w).failed ∧
      time = s.now :=
    fun hl => ⟨[], by simp [hl], by simp⟩
  obtain ⟨he, rfl⟩ := step_eq h
  cases a with
  | prepare c inv =>
    rcases s.prepare_cases c env inv with hp | ⟨call, -, -, -, hp⟩ <;>
      exact quiet (by rw [effect, hp]; rfl)
  | connect c =>
    apply quiet
    simp only [effect, Channel.connect]
    split_ifs <;> rfl
  | join c =>
    apply quiet
    simp only [effect, Channel.join]
    split_ifs <;> rfl
  | openConnection c result =>
    rcases s.openConnection_cases c result with ⟨reason, -, ho⟩ | ⟨-, ho⟩ <;>
      exact quiet (by rw [effect, ho]; rfl)
  | register c => exact ⟨_, rfl, by simp⟩
  | send c ret =>
    obtain ⟨call, -, -, -, mtx, hs⟩ := s.send_cases c ret he.1
    exact quiet (by rw [effect, hs]; rfl)
  | undo c =>
    simp only [effect, Channel.undo]
    split
    · exact ⟨[], (List.append_nil _).symm, by simp⟩
    · exact ⟨_, rfl, by simp⟩
  | fail c => exact ⟨_, rfl, by simp +contextual⟩
  | recvTop =>
    apply quiet
    simp only [effect, Channel.recvTop]
    split_ifs <;> rfl
  | recvTake id body =>
    simp only [effect, Channel.recvTake]
    split
    · exact ⟨_, rfl, by simp⟩
    · exact ⟨_, List.append_assoc .., by simp⟩
  | recvFailAll | closeAll => exact ⟨_, rfl, by simp⟩
  | tick =>
    simp only [effect, Channel.tick]
    split_ifs
    · exact ⟨[], (List.append_nil _).symm, by simp⟩
    · exact ⟨_, rfl, by simp⟩
  | runDone w id =>
    obtain ⟨p, hp⟩ := Option.ne_none_iff_exists'.mp he.2
    refine ⟨[.done (s.batches w).taker p.call (s.batches w).failed s.now], by simp [effect,
      Channel.runDone, hp, record,
      setBatch], ?_⟩
    rintro q c f time hm
    simp only [List.mem_singleton, Event.done.injEq] at hm
    exact .inr ⟨w, id, p, hp, hm.2.1.symm, hm.2.2.1, hm.2.2.2⟩
  | free w =>
    obtain ⟨p, hp, -⟩ := he
    simp only [effect, Channel.free, Option.mem_def.mp hp]
    exact ⟨_, rfl, by simp⟩
  | _ => exact quiet rfl

def Timely (s : Channel) : Prop :=
  ∀ q c time, .done q c (some .rpcTimeout) time ∈ s.log → ∃ d, .registered c (some d) ∈ s.log ∧
  d ≤ time

lemma Timely.step (hi : s.started < 2 ^ 64 → s.Timely) (hs : s.Sound) (h : s.step env a = some t) :
    t.started < 2 ^ 64 → t.Timely := by
  intro hlt q c time hmem
  have hle := started_step h
  obtain ⟨life, hl⟩ := hs.books (by omega)
  obtain ⟨events, hlog, hev⟩ := log_step h
  rw [hlog, List.mem_append] at hmem
  simp only [hlog, List.mem_append]
  rcases hmem with hmem | hmem
  · obtain ⟨d, hd, hdt⟩ := hi (by omega) q c time hmem
    exact ⟨d, .inl hd, hdt⟩
  · rcases hev q c _ time hmem with herr | ⟨w, id, p, hp, rfl, hf, rfl⟩
    · exact absurd herr.symm (hs.called.error c)
    · have hw := hs.settled.reasons w hf.symm
      subst hw
      have hx := hs.settled.expired id p hp
      simp only [Pending.expired, Option.any_eq_true, decide_eq_true_eq] at hx
      obtain ⟨d, hd, hdt⟩ := hx
      refine ⟨d, .inl ?_, hdt⟩
      have htaken := ((hl.todo .timer _ id p).mp ⟨hp, rfl⟩).1
      have hin : Event.registered p.call (some d) ∈ history p.call s.log := by
        rw [hl.events, htaken, hd]
        simp [Life.history]
      exact List.mem_of_mem_filter hin

lemma timely_run {as : List Action} (h : Run (Channel.step env) Any constructed as t) :
    t.started < 2 ^ 64 → t.Timely := by
  refine h.invariant_with (K := Sound) (I := fun u => u.started < 2 ^ 64 → u.Timely) ?_
    (fun _ _ hr => sound_run hr) (fun _ _ _ hs _ hi _ hstep => Timely.step hi hs hstep)
  simp [Timely, constructed]

lemma finished_life {life : ℕ → Life} (hb : s.Books life) (hs : s.Sound)
    (hd : s.destructor = .returned)
    (hc : c < s.started) :
    (∃ error time, life c = .failed error time) ∨ (∃ q d f time, life c = .freed q d f time) ∨
      ∃ d error time, life c = .refused d error time := by
  have hdrained := hs.settled.drained (by simp [hd])
  have htimer := hs.settled.timerJoined (by simp [hd])
  have hrecv := hs.settled.recvJoined (by simp [hd])
  have hdone : ∀ w, (s.batches w).Done := by
    intro w
    cases w with
    | recv => exact hs.settled.recv (by simp [hrecv]) (by simp [hrecv])
    | timer => exact hs.settled.timer (by simp [htimer])
    | destructor => exact hs.settled.destructor (by simp [hd])
  have hret := hs.called.ended (by simp [hd]) c hc
  have hst := hb.stands c
  cases hl : life c with
  | unregistered => rcases hret with h | h <;> simp [hl, h, Life.pcs] at hst
  | failed error time => exact .inl ⟨error, time, rfl⟩
  | waiting d =>
    have ht := (hb.table (s.calls c).requestId ⟨c, d⟩).mpr ⟨hl, rfl⟩
    simp [hdrained, AList.lookup_empty] at ht
  | taken w q d =>
    have ht := (hb.todo w q (s.calls c).requestId ⟨c, d⟩).mpr ⟨hl, rfl⟩
    simp [(hdone w).lookup] at ht
  | ran w q d f time =>
    have ht := (hb.running w q ⟨c, d⟩).mpr ⟨f, time, hl⟩
    simp [(hdone w).2] at ht
  | freed q d f time => exact .inr (.inl ⟨q, d, f, time, rfl⟩)
  | withdrawn d => rcases hret with h | h <;> simp [hl, h, Life.pcs] at hst
  | refused d error time => exact .inr (.inr ⟨d, error, time, rfl⟩)

/-- Whatever the interleaving, the done closure of a call runs at most once, the party
that took its pending entry runs it and frees the entry once, a time-out comes after
the deadline, and when the destructor has returned every call is completed and freed. -/
theorem completed_exactly_once (env : ChannelEnv) {as : List Action} {t : Channel}
    (h : Run (Channel.step env) Any constructed as t) (hlt : t.started < 2 ^ 64) :
    (∀ c, (t.dones c).length ≤ 1) ∧
    (∀ c, (t.registrations c).length ≤ 1 ∧ (t.takes c).length ≤ (t.registrations c).length ∧
      t.frees c <+: t.takes c ∧ (t.registrations c ≠ [] → t.dones c <+: t.takes c)) ∧
    (∀ q c time, .done q c (some .rpcTimeout) time ∈ t.log → ∃ d, .registered c (some d) ∈ t.log ∧
      d ≤ time) ∧
    (t.destructor = .returned → t.pending = ∅ ∧ ∀ c < t.started, (t.dones c).length = 1 ∧
      t.frees c = t.takes c ∧ (t.takes c).length = (t.registrations c).length) := by
  have hs := sound_run h
  obtain ⟨life, hl⟩ := hs.books hlt
  refine ⟨?_, ?_, timely_run h hlt, ?_⟩
  · intro c
    rw [hl.dones_eq]
    cases life c <;> simp [Life.history, Event.doneBy, List.filterMap_cons]
  · intro c
    rw [hl.registrations_eq, hl.takes_eq, hl.frees_eq, hl.dones_eq]
    cases life c <;>
      simp [Life.history, Event.doneBy, Event.takenBy, Event.freedBy, Event.deadlineOf,
        List.filterMap_cons]
  · intro hd
    refine ⟨hs.settled.drained (by simp [hd]), ?_⟩
    intro c hc
    rw [hl.registrations_eq, hl.takes_eq, hl.frees_eq, hl.dones_eq]
    rcases finished_life hl hs hd hc with ⟨error, time, hn⟩ | ⟨q, d, f, time, hn⟩ |
      ⟨d, error, time, hn⟩ <;>
      simp [hn, Life.history, Event.doneBy, Event.takenBy, Event.freedBy, Event.deadlineOf,
        List.filterMap_cons]

def sampleEnv : ChannelEnv := ⟨Wire.protoCodec, fun _ _ => true⟩

def sampleInvocation (hostData : String) : Invocation := ⟨[85], [76], some [], .found hostData⟩

def sampleCall (c : ℕ) (hostData : String) : List Action :=
  [.start none, .prepare c (sampleInvocation hostData), .connect c, .join c,
    .openConnection c .connected, .register c,
    .lockSend c, .send c 12]

def sampleRun : List Action :=
  sampleCall 0 "10.0.0.1:80" ++
  [.recvTop, .recv [10, 0, 0, 0], .recv [1, 0, 0, 0, 0, 0, 0, 0], .recv [8, 1], .recvTake 1 [8, 1],
    .runDone .recv 1,
    .free .recv, .recvNext, .start none, .prepare 1 (sampleInvocation "10.0.0.2:80"), .connect 1,
    .recvTop, .recvFail,
    .recvFailAll, .recvFinish, .join 1, .openConnection 1 (.connectError 111), .fail 1, .return 1,
    .destroy, .timerExit,
    .joinTimer, .teardown, .joinRecv, .closeAll, .destroyed]

theorem completed_exactly_once_sample :
    ∃ t, exec (Channel.step sampleEnv) constructed sampleRun = some t ∧
    t.pending = ∅ ∧ (t.dones 0).length = 1 ∧ (t.dones 1).length = 1 ∧ t.frees 0 = t.takes 0 := by
  obtain ⟨t, ht, hd⟩ : ∃ t, exec (Channel.step sampleEnv) constructed sampleRun = some t ∧
      decide (t.destructor = .returned ∧ t.started = 2) = true := exec_any (by decide +kernel)
  simp only [decide_eq_true_eq] at hd
  have hrun : Run (Channel.step sampleEnv) Any constructed sampleRun t :=
    .of_exec ht (by decide +kernel)
  obtain ⟨-, -, -, hend⟩ := completed_exactly_once sampleEnv hrun (by omega)
  obtain ⟨hp, hall⟩ := hend hd.1
  exact ⟨t, ht, hp, (hall 0 (by omega)).1, (hall 1 (by omega)).1, (hall 0 (by omega)).2.1⟩

end KimRpc.Client.Channel
