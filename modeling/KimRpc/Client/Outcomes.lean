import KimRpc.Client.LinkStreams

/-! What it means that a call succeeded: a response with the id of the call arrived, and
its body parsed. Every other way to complete a call gives a reason. -/

namespace KimRpc.Client.Channel

open Library.Runs Library.Tables Wire

variable {env : ChannelEnv} {s t : Channel} {a : Action} {c : ℕ}

def Replied (env : ChannelEnv) (s : Channel) (c : ℕ) : Prop :=
  ((s.calls c).pc ∉ early ∧ s.frame c ≠ []) ∧ ∃ body, ((s.calls c).requestId, body) ∈ s.heard ∧
  env.parses c body = true

structure Fulfilled (env : ChannelEnv) (s : Channel) : Prop where
  reasons : ∀ c, (s.calls c).pc ∈ [CallPc.failing, .undoing] → (s.calls c).error ≠ none
  batches : ∀ w id p, (s.batches w).todo.lookup id = some p → (s.batches w).failed = none →
      Replied env s p.call
  dones : ∀ q c time, Event.done q c none time ∈ s.log → Replied env s c

lemma heard_step (h : s.step env a = some t) : s.heard <+: t.heard := by
  obtain ⟨events, hlog, -⟩ := log_step h
  rw [heard, heard, hlog, List.filterMap_append]
  exact List.prefix_append _ _

lemma frame_late (hcalled : s.Called) (h : s.step env a = some t) (hpc : (s.calls c).pc ∉ early) :
    t.frame c = s.frame c := by
  rcases frame_step h with hkept | ⟨call, -, -, hcalls⟩ | ⟨d, inv, rfl⟩
  · exact hkept.frame c
  · have hne : c ≠ s.started := by
      rintro rfl
      exact hpc (by simp [hcalled.absent _ le_rfl, early])
    rw [frame, hcalls, Function.update_of_ne hne]
    rfl
  · obtain ⟨he, rfl⟩ := step_eq h
    have hprep : (s.calls d).pc = .preparing := he
    have hne : c ≠ d := by
      rintro rfl
      exact hpc (by simp [hprep, early])
    rcases s.prepare_cases d env inv with hprepare | ⟨call, -, -, -, hprepare⟩
    · rw [effect, hprepare]
      exact congrArg Call.sendRpcStr (Function.update_of_ne hne _ _)
    · rw [effect, hprepare]
      exact congrArg Call.sendRpcStr (Function.update_of_ne hne _ _)

lemma Replied.step (h : Replied env s c) (hcalled : s.Called) (hstep : s.step env a = some t) :
    Replied env t c := by
  obtain ⟨⟨hpc, hframe⟩, body, hmem, hparses⟩ := h
  obtain ⟨hid, hpc'⟩ := moved_on hcalled hstep hpc
  refine ⟨⟨hpc', ?_⟩, body, hid ▸ (heard_step hstep).subset hmem, hparses⟩
  rw [frame_late hcalled hstep hpc]
  exact hframe

def Reasoned (s t : Channel) : Prop :=
  ∀ d, (t.calls d).pc ∈ [CallPc.failing, .undoing] →
    ((s.calls d).pc ∈ [CallPc.failing, .undoing] ∧ (t.calls d).error = (s.calls d).error) ∨
    (t.calls d).error ≠ none

lemma Reasoned.of_calls (hcalls : t.calls = s.calls) : Reasoned s t := by
  intro d hd
  rw [hcalls] at hd ⊢
  exact .inl ⟨hd, rfl⟩

lemma Reasoned.update {r : Call} (hcalls : t.calls = Function.update s.calls c r)
    (hcall : r.pc ∈ [CallPc.failing, .undoing] →
      ((s.calls c).pc ∈ [CallPc.failing, .undoing] ∧ r.error = (s.calls c).error) ∨
      r.error ≠ none) : Reasoned s t := by
  intro d hd
  rw [hcalls] at hd ⊢
  by_cases hdc : d = c
  · subst hdc
    rw [Function.update_self] at hd ⊢
    exact hcall hd
  · rw [Function.update_of_ne hdc] at hd ⊢
    exact .inl ⟨hd, rfl⟩

lemma reason_step (h : s.step env a = some t) : Reasoned s t := by
  obtain ⟨he, rfl⟩ := step_eq h
  cases a with
  | start parent => exact Reasoned.update (c := s.started) rfl (by simp)
  | prepare c inv =>
    have hpc : (s.calls c).pc = .preparing := he
    simp only [effect, prepare]
    split
    · exact Reasoned.update (c := c) rfl (by simp)
    · split
      · exact Reasoned.update (c := c) (r := { s.calls c with
          requestId := s.nextId, pc := .failing,
          error := some .serializeRpcHeader }) (by simp [failWith, allocate, setCall])
          (by simp)
      · split
        · exact Reasoned.update (c := c) (r := { s.calls c with
            requestId := s.nextId, pc := .failing,
            error := some _ }) (by simp [failWith, allocate, setCall]; rfl) (by simp)
        · exact Reasoned.update (c := c) (r := { s.calls c with
            requestId := s.nextId, pc := .connecting, hostData := _,
            sendRpcStr := _ }) (by simp [allocate, setCall]; rfl)
            (by simp)
  | connect c =>
    simp only [effect, Channel.connect]
    split_ifs
    · exact Reasoned.update (c := c) rfl (by simp)
    · exact Reasoned.update (c := c) rfl (by simp)
  | join c =>
    simp only [effect, Channel.join]
    split_ifs
    · exact .of_calls rfl
    · exact Reasoned.update (c := c) rfl (by simp)
  | openConnection c result =>
    rcases s.openConnection_cases c result with ⟨reason, -, ho⟩ | ⟨-, ho⟩
    · rw [effect, ho]
      exact Reasoned.update (c := c) rfl (by simp)
    · rw [effect, ho]
      exact Reasoned.update (c := c) rfl (by simp)
  | register c => exact Reasoned.update (c := c) rfl (by simp)
  | lockSend c => exact Reasoned.update (c := c) rfl (by simp)
  | send c ret =>
    obtain ⟨call, hpc, -, -, mtx, hs⟩ := s.send_cases c ret he.1
    rw [effect, hs]
    refine Reasoned.update (c := c) rfl (fun hfail => ?_)
    simp only [List.mem_cons, List.not_mem_nil, or_false] at hpc hfail
    rcases hpc with hpc | hpc <;> simp [hpc] at hfail
  | sendFail c errno => exact Reasoned.update (c := c) rfl (by simp)
  | undo c =>
    have hpc : (s.calls c).pc = .undoing := he
    simp only [effect, Channel.undo]
    split
    · exact Reasoned.update (c := c) rfl (by simp)
    · exact Reasoned.update (c := c) rfl (by simp [hpc])
  | fail c => exact Reasoned.update (c := c) rfl (by simp)
  | «return» c => exact Reasoned.update (c := c) rfl (by simp)
  | recvTop =>
    simp only [effect, Channel.recvTop]
    split_ifs <;> exact .of_calls rfl
  | recvTake id body =>
    simp only [effect, Channel.recvTake]
    split <;> exact .of_calls rfl
  | tick =>
    simp only [effect, Channel.tick]
    split_ifs <;> exact .of_calls rfl
  | runDone w id =>
    simp only [effect, Channel.runDone]
    split <;> exact .of_calls rfl
  | free w =>
    simp only [effect, Channel.free]
    split <;> exact .of_calls rfl
  | _ => exact .of_calls rfl

lemma batch_step (h : s.step env a = some t) {w : Worker} {id : UInt64} {p : Pending}
    (hp : (t.batches w).todo.lookup id = some p) (hf : (t.batches w).failed = none) :
    ((s.batches w).todo.lookup id = some p ∧ (s.batches w).failed = none) ∨
      ∃ body, a = .recvTake id body ∧ s.pending.lookup id = some p ∧
      env.parses p.call body = true := by
  have htake : ∀ (u : Worker) (b : Batch), t.batches = Function.update s.batches u b →
      (b.failed = none → False) →
      (s.batches w).todo.lookup id = some p ∧ (s.batches w).failed = none := by
    intro u b hb hfail
    rw [hb] at hp hf
    by_cases hw : w = u
    · subst hw
      rw [Function.update_self] at hf
      exact (hfail hf).elim
    · rw [Function.update_of_ne hw] at hp hf
      exact ⟨hp, hf⟩
  have hsame : t.batches = s.batches → (s.batches w).todo.lookup id = some p ∧
      (s.batches w).failed = none := by
    intro hb
    rw [hb] at hp hf
    exact ⟨hp, hf⟩
  obtain ⟨he, rfl⟩ := step_eq h
  cases a with
  | recvTake id' body =>
    simp only [effect, Channel.recvTake] at hp hf
    split at hp
    · rename_i hnone
      simp only [hnone] at hf
      exact .inl ⟨hp, hf⟩
    · rename_i pend hsome
      simp only [hsome] at hf
      simp only [take, setBatch, record] at hp hf
      by_cases hw : w = .recv
      · subst hw
        simp only [Function.update_self] at hp hf
        have hone : id = id' ∧
            p = pend := by simpa [mem_lookup_entries (m := AList.singleton id' pend)] using hp
        obtain ⟨rfl, rfl⟩ := hone
        refine .inr ⟨body, rfl, hsome, ?_⟩
        by_contra hparses
        simp [hparses] at hf
      · simp only [Function.update_of_ne hw] at hp hf
        exact .inl ⟨hp, hf⟩
  | recvFailAll =>
    exact .inl (htake .recv ⟨.failAllPending, some .connectionClosed, s.pending, none⟩ rfl
      (by simp))
  | closeAll =>
    exact .inl (htake .destructor ⟨.failAllPending, some .channelClosed, s.pending, none⟩ rfl
      (by simp))
  | tick =>
    simp only [effect, Channel.tick] at hp hf htake
    split_ifs at hp hf htake
    · exact .inl ⟨hp, hf⟩
    · exact .inl
        (htake .timer ⟨.timerLoop, some .rpcTimeout, select s.pending (Pending.expired s.now), none⟩
          rfl (by simp))
  | runDone u id' =>
    simp only [effect, Channel.runDone] at hp hf
    split at hp
    · rename_i hnone
      simp only [hnone] at hf
      exact .inl ⟨hp, hf⟩
    · rename_i pend hsome
      simp only [hsome, setBatch, record] at hp hf
      by_cases hw : w = u
      · subst hw
        simp only [Function.update_self] at hp hf
        by_cases hid : id = id'
        · subst hid
          simp [AList.lookup_erase] at hp
        · rw [AList.lookup_erase_ne hid] at hp
          exact .inl ⟨hp, hf⟩
      · simp only [Function.update_of_ne hw] at hp hf
        exact .inl ⟨hp, hf⟩
  | free u =>
    simp only [effect, Channel.free] at hp hf
    split at hp
    · rename_i hnone
      simp only [hnone] at hf
      exact .inl ⟨hp, hf⟩
    · rename_i pend hsome
      simp only [hsome, setBatch, record] at hp hf
      by_cases hw : w = u
      · subst hw
        simp only [Function.update_self] at hp hf
        exact .inl ⟨hp, hf⟩
      · simp only [Function.update_of_ne hw] at hp hf
        exact .inl ⟨hp, hf⟩
  | prepare c inv =>
    rcases s.prepare_cases c env inv with hprepare | ⟨call, -, -, -, hprepare⟩
    · exact .inl (hsame (by rw [effect, hprepare]; rfl))
    · exact .inl (hsame (by rw [effect, hprepare]; rfl))
  | connect c =>
    refine .inl (hsame ?_)
    simp only [effect, Channel.connect]
    split_ifs <;> rfl
  | join c =>
    refine .inl (hsame ?_)
    simp only [effect, Channel.join]
    split_ifs <;> rfl
  | openConnection c result =>
    rcases s.openConnection_cases c result with ⟨reason, -, ho⟩ | ⟨-, ho⟩
    · exact .inl (hsame (by rw [effect, ho]; rfl))
    · exact .inl (hsame (by rw [effect, ho]; rfl))
  | send c ret =>
    obtain ⟨call, -, -, -, mtx, hs⟩ := s.send_cases c ret he.1
    exact .inl (hsame (by rw [effect, hs]; rfl))
  | undo c =>
    refine .inl (hsame ?_)
    simp only [effect, Channel.undo]
    split <;> rfl
  | recvTop =>
    refine .inl (hsame ?_)
    simp only [effect, Channel.recvTop]
    split_ifs <;> rfl
  | _ => exact .inl (hsame rfl)

lemma took_not_done (taken : PendingMap) (taker q : Taker) (time : ℕ) :
    Event.done q c none time ∉ taken.entries.map (fun e => Event.took taker e.2.call) := by
  intro hmem
  obtain ⟨_, _, heq⟩ := List.mem_map.mp hmem
  cases heq

lemma done_step (h : s.step env a = some t) {q : Taker} {time : ℕ}
    (hmem : Event.done q c none time ∈ t.log) :
    Event.done q c none time ∈ s.log ∨ ((s.calls c).pc = .failing ∧ (s.calls c).error = none) ∨
      ∃ w id p, (s.batches w).todo.lookup id = some p ∧ p.call = c ∧
      (s.batches w).failed = none := by
  have hquiet : ∀ events, t.log = s.log ++ events → Event.done q c none time ∉ events →
      Event.done q c none time ∈ s.log := by
    intro events hlog hnot
    rw [hlog, List.mem_append] at hmem
    exact hmem.resolve_right hnot
  have hsame : t.log = s.log → Event.done q c none time ∈ s.log := fun hlog => hlog ▸ hmem
  obtain ⟨he, rfl⟩ := step_eq h
  cases a with
  | fail d =>
    have hlog : (s.effect env (.fail d)).log = s.log ++
        [.done .callAsync d (s.calls d).error s.now] := rfl
    rw [hlog, List.mem_append, List.mem_singleton] at hmem
    rcases hmem with hold | hnew
    · exact .inl hold
    · rw [Event.done.injEq] at hnew
      obtain ⟨-, rfl, herror, -⟩ := hnew
      exact .inr (.inl ⟨he, herror.symm⟩)
  | runDone w id =>
    obtain ⟨p, hp⟩ := Option.ne_none_iff_exists'.mp he.2
    have hlog : (s.effect env (.runDone w id)).log = s.log ++
        [.done (s.batches w).taker p.call (s.batches w).failed s.now] := by
      simp [effect, Channel.runDone, hp, record, setBatch]
    rw [hlog, List.mem_append, List.mem_singleton, Event.done.injEq] at hmem
    rcases hmem with hold | ⟨-, hc, hf, -⟩
    · exact .inl hold
    · exact .inr (.inr ⟨w, id, p, hp, hc.symm, hf.symm⟩)
  | register d => exact .inl (hquiet [.registered d s.deadline] rfl (by simp))
  | undo d =>
    simp only [effect, Channel.undo] at hsame hquiet
    split at hsame
    · exact .inl (hsame rfl)
    · rename_i hsome
      simp only [hsome] at hquiet
      exact .inl (hquiet [.took .callAsync d, .freed .callAsync d] rfl (by simp))
  | recvTake id body =>
    simp only [effect, Channel.recvTake] at hquiet
    split at hquiet
    · exact .inl (hquiet [.arrived id body] rfl (by simp))
    · refine .inl (hquiet _ (List.append_assoc _ _ _) ?_)
      rw [List.mem_append, List.mem_singleton]
      rintro (heq | htook)
      · cases heq
      · exact took_not_done _ _ _ _ htook
  | recvFailAll => exact .inl (hquiet _ rfl (took_not_done s.pending _ _ _))
  | closeAll => exact .inl (hquiet _ rfl (took_not_done s.pending _ _ _))
  | tick =>
    simp only [effect, Channel.tick] at hquiet hsame
    split_ifs at hquiet hsame
    · exact .inl (hsame rfl)
    · exact .inl (hquiet _ rfl (took_not_done _ _ _ _))
  | free w =>
    obtain ⟨p, hp, -⟩ := he
    have hlog : (s.effect env (.free w)).log = s.log ++ [.freed (s.batches w).taker p.call] := by
      simp [effect, Channel.free, Option.mem_def.mp hp, record, setBatch]
    exact .inl (hquiet _ hlog (by simp))
  | prepare d inv =>
    rcases s.prepare_cases d env inv with hprepare | ⟨call, -, -, -, hprepare⟩
    · exact .inl (hsame (by rw [effect, hprepare]; rfl))
    · exact .inl (hsame (by rw [effect, hprepare]; rfl))
  | connect d =>
    refine .inl (hsame ?_)
    simp only [effect, Channel.connect]
    split_ifs <;> rfl
  | join d =>
    refine .inl (hsame ?_)
    simp only [effect, Channel.join]
    split_ifs <;> rfl
  | openConnection d result =>
    rcases s.openConnection_cases d result with ⟨reason, -, ho⟩ | ⟨-, ho⟩
    · exact .inl (hsame (by rw [effect, ho]; rfl))
    · exact .inl (hsame (by rw [effect, ho]; rfl))
  | send d ret =>
    obtain ⟨call, -, -, -, mtx, hs⟩ := s.send_cases d ret he.1
    exact .inl (hsame (by rw [effect, hs]; rfl))
  | recvTop =>
    refine .inl (hsame ?_)
    simp only [effect, Channel.recvTop]
    split_ifs <;> rfl
  | _ => exact .inl (hsame rfl)

lemma heard_take {id : UInt64} {body : Bytes} (h : s.step env (.recvTake id body) = some t) :
    (id, body) ∈ t.heard := by
  obtain ⟨-, rfl⟩ := step_eq h
  simp only [effect, Channel.recvTake]
  split
  · simp [heard, record, Event.arrival]
  · simp [heard, take, record, setBatch, Event.arrival]

lemma Fulfilled.step (h : Fulfilled env s) (hs : s.Sound) (hk : s.Keyed) (hasked : Asked env s)
    (hstep : s.step env a = some t) : Fulfilled env t where
  reasons d hd := by
    rcases reason_step hstep d hd with ⟨hold, herror⟩ | hnew
    · rw [herror]
      exact h.reasons d hold
    · exact hnew
  batches w id p hp hf := by
    rcases batch_step hstep hp hf with ⟨hold, hf'⟩ | ⟨body, rfl, hpend, hparses⟩
    · exact (h.batches w id p hold hf').step hs.called hstep
    · obtain ⟨hid, hpc⟩ := hk id p hpend
      obtain ⟨hid', hpc'⟩ := moved_on hs.called hstep hpc
      refine ⟨⟨hpc', ?_⟩, body, ?_, hparses⟩
      · rw [frame_late hs.called hstep hpc]
        exact hasked.pending id p hpend
      · rw [hid', hid]
        exact heard_take hstep
  dones q d time hmem := by
    rcases done_step hstep hmem with hold | ⟨hpc, herror⟩ | ⟨w, id, p, hp, rfl, hf⟩
    · exact (h.dones q d time hold).step hs.called hstep
    · exact absurd herror (h.reasons d (by simp [hpc]))
    · exact (h.batches w id p hp hf).step hs.called hstep

lemma fulfilled_run {as : List Action}
    (h : Run (Channel.step env) (fun u a => u.fits env a = true) constructed as t) :
    Fulfilled env t := by
  refine h.invariant_with (K := fun u => u.Sound ∧ u.Keyed ∧ Asked env u) ?_
    (fun _ _ hr => ⟨sound_run hr, keyed_run hr, (asked_run hr).1⟩)
    (fun _ _ _ ⟨hs, hk, hasked⟩ _ hi _ hstep => hi.step hs hk hasked hstep)
  exact ⟨by simp [constructed], by simp [constructed, AList.lookup_empty], by simp [constructed]⟩

end KimRpc.Client.Channel
