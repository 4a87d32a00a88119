import KimRpc.Client.Connections

/-! Which calls a thread is in: done closures that call again nest, and only the
innermost call of a thread makes steps. -/

namespace KimRpc.Client

def Invocation.connects (codec : Wire.HeaderCodec) (id : UInt64) (inv : Invocation) : Bool :=
  (inv.argsStr.bind
    (fun argsStr => Wire.sendRpcStr codec ⟨inv.serviceName, inv.methodName, id, argsStr⟩)).isSome &&
    (match inv.address with
      | .found _ => true
      | _ => false)

def CallPc.Live (pc : CallPc) : Prop := pc ≠ .absent ∧ pc ≠ .returned ∧ pc ≠ .sent

namespace Channel

open Library.Runs

variable {env : ChannelEnv} {s t : Channel} {a : Action} {c : ℕ}

def Receiving (s : Channel) : Prop := s.recvThread ≠ none ∧ s.recvThread ≠ some .finished

instance (s : Channel) : Decidable s.Receiving := inferInstanceAs (Decidable (_ ∧ _))

def below (s : Channel) : Thread → Option ℕ
  | .caller _ => none
  | .recv => (s.batches .recv).running.map Pending.call
  | .timer => (s.batches .timer).running.map Pending.call

def SameKin (s t : Channel) : Prop :=
  ∀ d, (t.calls d).thread = (s.calls d).thread ∧ (t.calls d).parent = (s.calls d).parent

def SameBelow (s t : Channel) : Prop :=
  ∀ T, t.below T = s.below T ∨ s.below T = none ∨ ∃ p, s.below T = some p ∧ s.childrenReturned p

inductive ThreadStep (env : ChannelEnv) (s : Channel) : Action → Channel → Prop where
  | started (parent : Option ℕ) (he : s.Enabled (.start parent)) :
      ThreadStep env s (.start parent) (s.start parent)
  | walked {a : Action} {t : Channel} (hkin : s.SameKin t) (hbelow : s.SameBelow t)
      (hstarted : t.started = s.started)
      (hreturn : ∀ d, (s.calls d).pc = .inDone → (t.calls d).pc ≠ .inDone → s.childrenReturned d)
      (hconnecting : ∀ d, (t.calls d).pc = .connecting → (s.calls d).pc = .connecting ∨
        ∃ inv, a = .prepare d inv ∧ (s.calls d).pc = .preparing ∧
        inv.connects env.codec s.nextId = true)
      (hjoining : ∀ d, (t.calls d).pc = .joining → (s.calls d).pc = .joining ∨
        a = .connect d ∧ ¬ s.Connected (s.calls d).hostData)
      (hreceiving : t.Receiving → s.Receiving ∨ ∃ d, (s.calls d).pc = .opening)
      (hcrashed : t.crashed = true → s.crashed = true ∨
        ∃ d, (s.calls d).pc = .joining ∧ s.recvThread ≠ none ∧
        (s.calls d).thread = .recv) : ThreadStep env s a t

lemma SameBelow.of_batches (h : t.batches = s.batches) : s.SameBelow t := by
  intro T
  left
  cases T <;> simp only [below, h]

lemma ThreadStep.idle (hcalls : t.calls = s.calls) (hbelow : s.SameBelow t)
    (hstarted : t.started = s.started)
    (hreceiving : t.Receiving → s.Receiving) (hcrashed : t.crashed = s.crashed) :
    ThreadStep env s a t := by
  refine .walked ?_ hbelow hstarted ?_ ?_ ?_ (fun h => .inl (hreceiving h))
    (fun h => .inl (hcrashed ▸ h))
  · intro d
    rw [hcalls]
    exact ⟨rfl, rfl⟩
  all_goals
    intro d
    rw [hcalls]
  · exact fun h hn => absurd h hn
  · exact .inl
  · exact .inl

lemma ThreadStep.moved {call : Call} (hcalls : t.calls = Function.update s.calls c call)
    (hthread : call.thread = (s.calls c).thread) (hparent : call.parent = (s.calls c).parent)
    (hreturn : (s.calls c).pc = .inDone → s.childrenReturned c)
    (hconnecting : call.pc = .connecting → ∃ inv, a = .prepare c inv ∧ (s.calls c).pc = .preparing ∧
      inv.connects env.codec s.nextId = true)
    (hjoining : call.pc = .joining → a = .connect c ∧ ¬ s.Connected (s.calls c).hostData)
    (hbatches : t.batches = s.batches) (hstarted : t.started = s.started)
    (hreceiving : t.Receiving → s.Receiving ∨ ∃ d, (s.calls d).pc = .opening)
    (hcrashed : t.crashed = s.crashed) :
    ThreadStep env s a t := by
  refine .walked ?_ (.of_batches hbatches) hstarted ?_ ?_ ?_ hreceiving
    (fun h => .inl (hcrashed ▸ h)) <;> intro d <;>
    rw [hcalls] <;> by_cases hdc : d = c
  · subst hdc
    rw [Function.update_self]
    exact ⟨hthread, hparent⟩
  · rw [Function.update_of_ne hdc]
    exact ⟨rfl, rfl⟩
  · subst hdc
    exact fun h _ => hreturn h
  · rw [Function.update_of_ne hdc]
    exact fun h hn => absurd h hn
  · subst hdc
    rw [Function.update_self]
    exact fun h => .inr (hconnecting h)
  · rw [Function.update_of_ne hdc]
    exact .inl
  · subst hdc
    rw [Function.update_self]
    exact fun h => .inr (hjoining h)
  · rw [Function.update_of_ne hdc]
    exact .inl

lemma SameBelow.of_batch {w : Worker} {b : Batch} (hb : t.batches = Function.update s.batches w b)
    (h : (s.batches w).running = none ∨ ∃ pend, (s.batches w).running = some pend ∧
      s.childrenReturned pend.call) :
    s.SameBelow t := by
  have hw : ∀ w', w' = w → (s.batches w').running.map Pending.call = none ∨
      ∃ p, (s.batches w').running.map Pending.call = some p ∧ s.childrenReturned p := by
    rintro w' rfl
    rcases h with h | ⟨pend, h, hret⟩
    · exact .inl (by rw [h]; rfl)
    · exact .inr ⟨pend.call, by rw [h]; rfl, hret⟩
  intro T
  cases T with
  | caller n => exact .inl rfl
  | recv =>
    by_cases hr : Worker.recv = w
    · exact .inr (hw .recv hr)
    · left
      simp only [below, hb, Function.update_of_ne hr]
  | timer =>
    by_cases hr : Worker.timer = w
    · exact .inr (hw .timer hr)
    · left
      simp only [below, hb, Function.update_of_ne hr]

lemma prepare_call (env : ChannelEnv) (s : Channel) (c : ℕ) (inv : Invocation) :
    ∃ call id, s.prepare env c inv =
    { s.setCall c call with nextId := id } ∧ call.thread = (s.calls c).thread ∧
    call.parent = (s.calls c).parent ∧
    (call.pc = .failing ∨ call.pc = .connecting ∧ inv.connects env.codec s.nextId = true) := by
  cases hargs : inv.argsStr with
  | none =>
    exact ⟨{ s.calls c with pc := .failing, error := some .serializeRequest }, s.nextId,
      by simp [prepare, hargs, failWith, setCall], rfl, rfl, .inl rfl⟩
  | some argsStr =>
    cases hsend :
      Wire.sendRpcStr env.codec ⟨inv.serviceName, inv.methodName, s.nextId, argsStr⟩ with
    | none =>
      exact ⟨{ s.calls c with
        requestId := s.nextId, pc := .failing, error := some .serializeRpcHeader }, s.nextId + 1,
        by simp [prepare, hargs, hsend, allocate, failWith, setCall], rfl, rfl, .inl rfl⟩
    | some sendRpcStr =>
      cases hg : getRpcAddress inv.methodPath inv.address with
      | error error =>
        exact ⟨{ s.calls c with requestId := s.nextId, pc := .failing, error := some error },
          s.nextId + 1,
          by simp [prepare, hargs, hsend, hg, allocate, failWith, setCall], rfl, rfl, .inl rfl⟩
      | ok hostData =>
        refine ⟨{ s.calls c with
          requestId := s.nextId, pc := .connecting, hostData := hostData,
          sendRpcStr := sendRpcStr }, s.nextId + 1,
          by simp [prepare, hargs, hsend, hg, allocate, setCall], rfl, rfl, .inr ⟨rfl, ?_⟩⟩
        cases haddress : inv.address with
        | found _ => simp [Invocation.connects, hargs, hsend, haddress]
        | _ => simp [haddress, getRpcAddress] at hg

lemma thread_step (hset : s.Settled) (h : s.step env a = some t) : ThreadStep env s a t := by
  obtain ⟨he, rfl⟩ := step_eq h
  cases a with
  | start parent => exact .started parent he
  | prepare c inv =>
    simp only [Enabled] at he
    obtain ⟨call, id, hp, hthread, hparent, hpc⟩ := prepare_call env s c inv
    rw [effect, hp]
    refine .moved (c := c) rfl hthread hparent (by simp [he]) ?_ ?_ rfl rfl .inl rfl
    · intro hc
      rcases hpc with hf | ⟨-, hok⟩
      · simp [hf] at hc
      · exact ⟨inv, rfl, he, hok⟩
    · intro hj
      rcases hpc with hf | ⟨hc, -⟩
      · simp [hf] at hj
      · simp [hc] at hj
  | connect c =>
    by_cases hconn : s.Connected (s.calls c).hostData
    · simp only [effect, Channel.connect, hconn, if_true]
      exact .moved (c := c) rfl rfl rfl (by simp [he.1]) (by simp) (by simp) rfl rfl .inl rfl
    · simp only [effect, Channel.connect, hconn, if_false]
      exact .moved (c := c) rfl rfl rfl (by simp [he.1]) (by simp) (fun _ => ⟨rfl, hconn⟩) rfl rfl
        .inl rfl
  | join c =>
    simp only [effect, Channel.join]
    split_ifs with hj
    · refine .walked (fun _ => ⟨rfl, rfl⟩) (.of_batches rfl) rfl (fun _ h hn => absurd h hn)
        (fun _ => .inl) (fun _ => .inl)
        .inl (fun _ => .inr ⟨c, he.1, hj⟩)
    · exact .moved (c := c) rfl rfl rfl (by simp [he.1]) (by simp) (by simp) rfl rfl
        (by simp [Receiving]) rfl
  | openConnection c result =>
    simp only [Enabled] at he
    rcases s.openConnection_cases c result with ⟨reason, -, ho⟩ | ⟨-, ho⟩ <;> rw [effect, ho]
    · exact .moved (c := c) rfl rfl rfl (by simp [he]) (by simp) (by simp) rfl rfl .inl rfl
    · exact .moved (c := c) rfl rfl rfl (by simp [he]) (by simp) (by simp) rfl rfl
        (fun _ => .inr ⟨c, he⟩) rfl
  | register c =>
    simp only [Enabled] at he
    simp only [effect, Channel.register, record]
    exact .moved (c := c) rfl rfl rfl (by simp [he]) (by simp) (by simp) rfl rfl .inl rfl
  | lockSend c =>
    exact .moved (c := c) rfl rfl rfl (by simp [he.1]) (by simp) (by simp) rfl rfl .inl rfl
  | send c ret =>
    by_cases hw : (s.calls c).written + ret < (s.calls c).sendRpcStr.length
    · simp only [effect, Channel.send, hw, if_true]
      exact .moved (c := c) rfl rfl rfl (by simp [he.1]) (by simp [he.1]) (by simp [he.1]) rfl rfl
        .inl rfl
    · simp only [effect, Channel.send, hw, if_false]
      exact .moved (c := c) rfl rfl rfl (by simp [he.1]) (by simp) (by simp) rfl rfl .inl rfl
  | sendFail c errno =>
    simp only [Enabled] at he
    exact .moved (c := c) rfl rfl rfl (by simp [he]) (by simp) (by simp) rfl rfl .inl rfl
  | undo c =>
    simp only [Enabled] at he
    simp only [effect, Channel.undo, record]
    split <;> exact .moved (c := c) rfl rfl rfl (by simp [he]) (by simp) (by simp) rfl rfl .inl rfl
  | fail c =>
    simp only [Enabled] at he
    simp only [effect, Channel.fail, record]
    exact .moved (c := c) rfl rfl rfl (by simp [he]) (by simp) (by simp) rfl rfl .inl rfl
  | «return» c =>
    exact .moved (c := c) rfl rfl rfl (fun _ => he.2) (by simp) (by simp) rfl rfl .inl rfl
  | recvTop =>
    simp only [Enabled] at he
    simp only [effect, Channel.recvTop]
    split_ifs <;> exact .idle rfl (.of_batches rfl) rfl (fun _ => by simp [Receiving, he]) rfl
  | recvFail | recvNext =>
    exact .idle rfl (.of_batches rfl) rfl (fun _ => by simp [Receiving, he.1]) rfl
  | recvFinish | joinRecv => exact .idle rfl (.of_batches rfl) rfl (by simp [effect, Receiving]) rfl
  | recvTake id body =>
    have hdone := hset.recv (by simp [he.1]) (by simp [he.1])
    simp only [effect, Channel.recvTake, take, setBatch, record]
    split
    · exact .idle rfl (.of_batches rfl) rfl (fun _ => by simp [Receiving, he.1]) rfl
    · exact .idle rfl (.of_batch rfl (.inl hdone.2)) rfl (fun _ => by simp [Receiving, he.1]) rfl
  | recvFailAll =>
    simp only [Enabled] at he
    have hdone := hset.recv (by simp [he]) (by simp [he])
    simp only [effect, failAllPending, take, setBatch, record]
    exact .idle rfl (.of_batch rfl (.inl hdone.2)) rfl (fun _ => by simp [Receiving, he]) rfl
  | closeAll =>
    simp only [Enabled] at he
    have hdone := hset.destructor (by simp [he])
    simp only [effect, failAllPending, take, setBatch, record]
    exact .idle rfl (.of_batch rfl (.inl hdone.2)) rfl (fun h => h) rfl
  | tick =>
    have hdone := hset.timer (by simp [he.1])
    simp only [effect, Channel.tick, take, setBatch, record]
    split_ifs
    · exact .idle rfl (.of_batches rfl) rfl (fun h => h) rfl
    · exact .idle rfl (.of_batch rfl (.inl hdone.2)) rfl (fun h => h) rfl
  | runDone w id =>
    simp only [effect, Channel.runDone, setBatch, record]
    split
    · exact .idle rfl (.of_batches rfl) rfl (fun h => h) rfl
    · exact .idle rfl (.of_batch rfl (.inl he.1)) rfl (fun h => h) rfl
  | free w =>
    obtain ⟨pend, hp, hret⟩ := he
    simp only [effect, Channel.free, setBatch, record, Option.mem_def.mp hp]
    exact .idle rfl (.of_batch rfl (.inr ⟨pend, hp, hret⟩)) rfl (fun h => h) rfl
  | _ => exact .idle rfl (.of_batches rfl) rfl (fun h => h) rfl

def Chain (s : Channel) (T : Thread) : List ℕ → Prop
  | [] => True
  | [c] => (s.calls c).parent = s.below T ∧ ((∃ n, T = .caller n) ∨ s.below T ≠ none)
  | c :: p :: rest => (s.calls c).parent = some p ∧ (s.calls p).pc = .inDone ∧ s.Chain T (p :: rest)

variable {T : Thread}

lemma Chain.tail {rest : List ℕ} (h : s.Chain T (c :: rest)) : s.Chain T rest := by
  cases rest with
  | nil => trivial
  | cons p rest => exact h.2.2

lemma Chain.outer {rest : List ℕ} (h : s.Chain T (c :: rest)) : ∀ d ∈ rest,
    (s.calls d).pc = .inDone ∧
    ∃ e ∈ c :: rest, (s.calls e).parent = some d := by
  induction rest generalizing c with
  | nil => simp
  | cons p rest ih =>
    obtain ⟨hparent, hpc, hrest⟩ := h
    rw [List.forall_mem_cons]
    refine ⟨⟨hpc, c, by simp, hparent⟩, ?_⟩
    intro d hd
    obtain ⟨hdpc, e, he, hep⟩ := ih hrest d hd
    exact ⟨hdpc, e, List.mem_cons_of_mem _ he, hep⟩

lemma Chain.bottom {l : List ℕ} (h : s.Chain T l) (hne : l ≠ []) :
    (∃ e ∈ l, (s.calls e).parent = s.below T) ∧ ((∃ n, T = .caller n) ∨ s.below T ≠ none) := by
  induction l with
  | nil => exact absurd rfl hne
  | cons c rest ih =>
    cases rest with
    | nil => exact ⟨⟨c, by simp, h.1⟩, h.2⟩
    | cons p rest =>
      obtain ⟨⟨e, he, hep⟩, hb⟩ := ih h.2.2 (by simp)
      exact ⟨⟨e, List.mem_cons_of_mem _ he, hep⟩, hb⟩

lemma Chain.congr {l : List ℕ} (h : s.Chain T l)
    (hparent : ∀ d ∈ l, (t.calls d).parent = (s.calls d).parent)
    (hpc : ∀ d ∈ l.tail, (t.calls d).pc = (s.calls d).pc)
    (hbelow : l ≠ [] → t.below T = s.below T) : t.Chain T l := by
  induction l with
  | nil => trivial
  | cons c rest ih =>
    have hc := hparent c (by simp)
    cases rest with
    | nil =>
      rw [Chain, hc, hbelow (by simp)]
      exact h
    | cons p rest =>
      obtain ⟨hp, hin, hrest⟩ := h
      rw [List.tail_cons, List.forall_mem_cons] at hpc
      rw [List.forall_mem_cons] at hparent
      exact ⟨hc.trans hp, hpc.1.trans hin, ih hrest hparent.2 hpc.2 (fun _ => hbelow (by simp))⟩

structure Nested (s : Channel) (stack : Thread → List ℕ) : Prop where
  mem : ∀ c T, c ∈ stack T ↔ (s.calls c).thread = T ∧ CallPc.Live (s.calls c).pc
  nodup : ∀ T, (stack T).Nodup
  chain : ∀ T, s.Chain T (stack T)
  fresh : ∀ c n, CallPc.Live (s.calls c).pc → (s.calls c).thread = .caller n → n < s.started

variable {stack : Thread → List ℕ}

lemma Nested.open_parent (hi : s.Nested stack) (hcalled : s.Called) {p : ℕ} (hc : c ∈ stack T)
    (hp : (s.calls c).parent = some p) : ¬ s.childrenReturned p := by
  intro hret
  obtain ⟨-, habs, hreturned, hsent⟩ := (hi.mem c T).mp hc
  have hlt : c < s.started := by
    by_contra hn
    exact habs (hcalled.absent c (by omega))
  exact (hret c hlt hp).elim hreturned hsent

lemma Nested.head (hi : s.Nested stack) (hcalled : s.Called) (hc : c ∈ stack T)
    (htop : (s.calls c).pc = .inDone → s.childrenReturned c) : ∃ rest, stack T = c :: rest := by
  have hchain := hi.chain T
  cases hs : stack T with
  | nil => simp [hs] at hc
  | cons d rest =>
    rw [hs] at hc hchain
    rcases List.mem_cons.mp hc with rfl | hc
    · exact ⟨rest, rfl⟩
    · obtain ⟨hin, e, he, hep⟩ := hchain.outer c hc
      exact absurd (htop hin) (hi.open_parent hcalled (hs ▸ he) hep)

lemma Nested.empty (hi : s.Nested stack) (hcalled : s.Called) (hT : ∀ n, T ≠ .caller n)
    (hb : s.below T = none ∨ ∃ p, s.below T = some p ∧ s.childrenReturned p) : stack T = [] := by
  by_contra hne
  obtain ⟨⟨e, he, hep⟩, hbelow⟩ := (hi.chain T).bottom hne
  rcases hb with hb | ⟨p, hb, hret⟩
  · rcases hbelow with ⟨n, hn⟩ | hn
    · exact hT n hn
    · exact hn hb
  · exact hi.open_parent hcalled he (hep.trans hb) hret

lemma Nested.below_eq (hi : s.Nested stack) (hcalled : s.Called) (hbelow : s.SameBelow t)
    (hne : stack T ≠ []) :
    t.below T = s.below T := by
  rcases hbelow T with h | h
  · exact h
  · cases T with
    | caller n => rfl
    | recv => exact absurd (hi.empty hcalled (by simp) h) hne
    | timer => exact absurd (hi.empty hcalled (by simp) h) hne

lemma Nested.update (hi : s.Nested stack) (hcalled : s.Called) {call : Call}
    (hcalls : t.calls = Function.update s.calls c call) (hkin : s.SameKin t)
    (hbelow : s.SameBelow t)
    (hstarted : t.started = s.started) (hlive : CallPc.Live (s.calls c).pc)
    (hmoved : (s.calls c).pc = .inDone → ¬ CallPc.Live call.pc)
    (hreturn : (s.calls c).pc = .inDone → s.childrenReturned c) : ∃ stack', t.Nested stack' := by
  obtain ⟨rest, hs⟩ := hi.head hcalled ((hi.mem c _).mpr ⟨rfl, hlive⟩) hreturn
  have hother : ∀ d ≠ c, (t.calls d).pc = (s.calls d).pc := by
    intro d hd
    rw [hcalls, Function.update_of_ne hd]
  have hself : (t.calls c).pc = call.pc := by rw [hcalls, Function.update_self]
  have hnot : ∀ T, c ∉ (stack T).tail := by
    intro T hm
    have hT : (s.calls c).thread = T := ((hi.mem c T).mp (List.mem_of_mem_tail hm)).1
    subst hT
    have hnd := hi.nodup (s.calls c).thread
    rw [hs] at hm hnd
    exact (List.nodup_cons.mp hnd).1 hm
  have hchain : ∀ T, t.Chain T (stack T) := by
    intro T
    refine (hi.chain T).congr (fun d _ => (hkin d).2) ?_ (hi.below_eq hcalled hbelow)
    intro d hd
    exact hother d (fun h => hnot T (h ▸ hd))
  have hfresh : ∀ d n, CallPc.Live (t.calls d).pc → (t.calls d).thread = .caller n →
      n < t.started := by
    intro d n hd hT
    rw [hstarted]
    rw [(hkin d).1] at hT
    by_cases hdc : d = c
    · exact hi.fresh c n hlive (hdc ▸ hT)
    · exact hi.fresh d n (hother d hdc ▸ hd) hT
  by_cases hl : CallPc.Live call.pc
  · refine ⟨stack, ?_, hi.nodup, hchain, hfresh⟩
    intro d T
    rw [hi.mem, (hkin d).1]
    by_cases hdc : d = c
    · rw [hdc, hself]
      simp only [hlive, hl]
    · rw [hother d hdc]
  · refine ⟨Function.update stack (s.calls c).thread rest, ?_, ?_, ?_, hfresh⟩
    · intro d T
      rw [(hkin d).1]
      by_cases hT : T = (s.calls c).thread
      · subst hT
        have hm := hi.mem d (s.calls c).thread
        have hnd := hi.nodup (s.calls c).thread
        rw [hs] at hm hnd
        rw [Function.update_self]
        by_cases hdc : d = c
        · subst hdc
          exact iff_of_false (List.nodup_cons.mp hnd).1 (fun h => hl (hself ▸ h.2))
        · rw [hother d hdc, ← hm, List.mem_cons, or_iff_right hdc]
      · rw [Function.update_of_ne hT, hi.mem]
        by_cases hdc : d = c
        · subst hdc
          exact iff_of_false (fun h => hT h.1.symm) (fun h => hT h.1.symm)
        · rw [hother d hdc]
    · intro T
      by_cases hT : T = (s.calls c).thread
      · subst hT
        have hnd := hi.nodup (s.calls c).thread
        rw [hs] at hnd
        rw [Function.update_self]
        exact (List.nodup_cons.mp hnd).2
      · rw [Function.update_of_ne hT]
        exact hi.nodup T
    · intro T
      by_cases hT : T = (s.calls c).thread
      · subst hT
        have htail := hchain (s.calls c).thread
        rw [hs] at htail
        rw [Function.update_self]
        exact htail.tail
      · rw [Function.update_of_ne hT]
        exact hchain T

lemma Nested.opens (hi : s.Nested stack) (hcalled : s.Called) {parent : Option ℕ}
    (he : s.Enabled (.start parent)) :
    ∃ T, (parent.bind s.doneThread).getD (.caller s.started) = T ∧
    (∀ n, T = .caller n → n < s.started + 1) ∧
      (stack T = [] ∧ parent = s.below T ∧ ((∃ n, T = .caller n) ∨ s.below T ≠ none) ∨
      ∃ p rest, stack T = p :: rest ∧ parent = some p ∧ (s.calls p).pc = .inDone) := by
  cases parent with
  | none =>
    refine ⟨.caller s.started, rfl, by simp, .inl ⟨?_, rfl, .inl ⟨s.started, rfl⟩⟩⟩
    rw [List.eq_nil_iff_forall_not_mem]
    intro c hc
    obtain ⟨hT, hl⟩ := (hi.mem c _).mp hc
    exact lt_irrefl _ (hi.fresh c s.started hl hT)
  | some p =>
    obtain ⟨-, hd, hret⟩ := he
    rw [Option.bind_some]
    simp only [doneThread] at hd ⊢
    split_ifs at hd ⊢ with hin hrecv htimer
    · have hl : CallPc.Live (s.calls p).pc := by simp [hin, CallPc.Live]
      obtain ⟨rest, hs⟩ := hi.head hcalled ((hi.mem p _).mpr ⟨rfl, hl⟩) (fun _ => hret)
      refine ⟨(s.calls p).thread, rfl, ?_, .inr ⟨p, rest, hs, rfl, hin⟩⟩
      intro n hn
      exact (hi.fresh p n hl hn).trans (Nat.lt_succ_self _)
    · have hs := hi.empty hcalled (T := .recv) (by simp) (.inr ⟨p, hrecv, hret⟩)
      exact ⟨.recv, rfl, by simp, .inl ⟨hs, hrecv.symm, .inr (by simp [below, hrecv])⟩⟩
    · have hs := hi.empty hcalled (T := .timer) (by simp) (.inr ⟨p, htimer, hret⟩)
      exact ⟨.timer, rfl, by simp, .inl ⟨hs, htimer.symm, .inr (by simp [below, htimer])⟩⟩
    · exact absurd rfl hd

lemma Nested.start (hi : s.Nested stack) (hcalled : s.Called) {parent : Option ℕ}
    (he : s.Enabled (.start parent)) :
    ∃ stack', (s.start parent).Nested stack' := by
  obtain ⟨T, hT, hfresh, htop⟩ := hi.opens hcalled he
  have hcalls : (s.start parent).calls =
      Function.update s.calls s.started { parent := parent, thread := T, pc := .preparing } := by
    simp only [Channel.start, hT]
    rfl
  have hbelow : ∀ T, (s.start parent).below T = s.below T := by
    intro T
    cases T <;> rfl
  have habsent : ¬ CallPc.Live (s.calls s.started).pc := by
    simp [hcalled.absent _ le_rfl, CallPc.Live]
  have hnot : ∀ T, ∀ d ∈ stack T, d ≠ s.started := by
    rintro T d hd rfl
    exact habsent ((hi.mem _ T).mp hd).2
  have hold : ∀ d ≠ s.started, (s.start parent).calls d = s.calls d := by
    intro d hd
    rw [hcalls, Function.update_of_ne hd]
  have hnew :
      (s.start parent).calls s.started = { parent := parent, thread := T, pc := .preparing } := by
    rw [hcalls, Function.update_self]
  have hchain : ∀ T, (s.start parent).Chain T (stack T) := by
    intro T
    refine (hi.chain T).congr ?_ ?_ (fun _ => hbelow T)
    · intro d hd
      rw [hold d (hnot T d hd)]
    · intro d hd
      rw [hold d (hnot T d (List.mem_of_mem_tail hd))]
  refine ⟨Function.update stack T (s.started :: stack T), ?_, ?_, ?_, ?_⟩
  · intro d T'
    by_cases hd : d = s.started
    · subst hd
      rw [hnew]
      by_cases hTT : T' = T
      · subst hTT
        simp [CallPc.Live]
      · rw [Function.update_of_ne hTT]
        exact iff_of_false (fun h => hnot T' _ h rfl) (fun h => hTT h.1.symm)
    · rw [hold d hd, ← hi.mem]
      by_cases hTT : T' = T
      · subst hTT
        simp [hd]
      · rw [Function.update_of_ne hTT]
  · intro T'
    by_cases hTT : T' = T
    · subst hTT
      rw [Function.update_self]
      exact List.nodup_cons.mpr ⟨fun h => hnot T' _ h rfl, hi.nodup T'⟩
    · rw [Function.update_of_ne hTT]
      exact hi.nodup T'
  · intro T'
    by_cases hTT : T' = T
    · subst hTT
      rw [Function.update_self]
      have hc := hchain T'
      rcases htop with ⟨hs, hparent, hb⟩ | ⟨p, rest, hs, rfl, hin⟩
      · rw [hs, Chain, hnew, hbelow]
        exact ⟨hparent, hb⟩
      · rw [hs] at hc ⊢
        have hpne : p ≠ s.started := hnot T' p (by simp [hs])
        exact ⟨by rw [hnew], by rw [hold p hpne, hin], hc⟩
    · rw [Function.update_of_ne hTT]
      exact hchain T'
  · intro d n hd hn
    have hlt : (s.start parent).started = s.started + 1 := rfl
    rw [hlt]
    by_cases hds : d = s.started
    · rw [hds, hnew] at hn
      exact hfresh n hn
    · rw [hold d hds] at hd hn
      exact (hi.fresh d n hd hn).trans (Nat.lt_succ_self _)

lemma Nested.step (hi : s.Nested stack) (hs : s.Sound) (h : s.step env a = some t) :
    ∃ stack', t.Nested stack' := by
  cases thread_step hs.settled h with
  | started parent he => exact hi.start hs.called he
  | walked hkin hbelow hstarted hreturn =>
    cases step_calls h with
    | idle hcalls =>
      refine ⟨stack, ?_, hi.nodup, ?_, ?_⟩
      · simpa only [hcalls] using hi.mem
      · intro T
        exact (hi.chain T).congr (fun d _ => (hkin d).2) (fun d _ => by rw [hcalls])
          (hi.below_eq hs.called hbelow)
      · simpa only [hcalls, hstarted] using hi.fresh
    | started call hpc herror hcalls hstarted' => omega
    | moved c call hmoves hcalls =>
      have hp := hmoves.pc
      refine hi.update hs.called hcalls hkin hbelow hstarted ?_ ?_ ?_
      · cases hc : (s.calls c).pc <;> simp [hc, CallPc.next, CallPc.Live] at hp ⊢
      · intro hc
        simp only [hc, CallPc.next, List.mem_singleton] at hp
        simp [hp, CallPc.Live]
      · intro hc
        refine hreturn c hc ?_
        simp only [hc, CallPc.next, List.mem_singleton] at hp
        simp [hcalls, hp]
    | allocated c call hpc hpc' _ _ hcalls =>
      exact hi.update hs.called hcalls hkin hbelow hstarted (by simp [hpc, CallPc.Live])
        (by simp [hpc]) (by simp [hpc])

lemma nested_run {ok : Channel → Action → Prop} {as : List Action}
    (h : Run (Channel.step env) ok constructed as t) :
    ∃ stack, t.Nested stack := by
  refine h.invariant_with (K := Sound) (I := fun u => ∃ stack, u.Nested stack) ?_
    (fun _ _ hr => sound_run hr) ?_
  · exact ⟨fun
      _ => [], by simp [constructed, CallPc.Live], fun _ => List.nodup_nil, fun _ => trivial,
      by simp [constructed, CallPc.Live]⟩
  · rintro u a v hs - ⟨stack, hi⟩ - hstep
    exact hi.step hs hstep

end Channel

end KimRpc.Client
