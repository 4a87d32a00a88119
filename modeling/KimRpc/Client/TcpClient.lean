import KimRpc.Client.Addresses
import KimRpc.Library.IoRing

/-! The blocking calls of `UringTcpClient`: each iteration prepares one operation, submits,
and takes the first completion of a ring that outlives the call. -/

namespace KimRpc.Client

open Discovery Library Library.Runs Wire

namespace TcpClient

def kEntries : ℕ := 64

inductive Request where
  | connect (fd : Option ℕ) (addr : List ℕ) (port : UInt16)
  | send (fd : Option ℕ) (data : Bytes)
  | recv (fd : Option ℕ) (offset len : ℕ)
  deriving DecidableEq

/-- `serial` tells apart what the ring itself does not: no user data is set. -/
structure Sqe where
  request : Request
  serial : ℕ
  deriving DecidableEq

inductive Call where
  | connect (addr : List ℕ) (port : UInt16)
  | writeAll (data : Bytes)
  | readExact (len : ℕ)
  | readSome
  deriving DecidableEq

inductive Pc where
  | idle
  | looping (call : Call) (count : ℕ)
  | submitting (call : Call) (count : ℕ) (sqe : Sqe)
  | waiting (call : Call) (count : ℕ) (sqe : Sqe)
  deriving DecidableEq

/-- `taken` pairs the SQE of each iteration with the one whose completion it took. -/
structure State where
  ringReady : Bool
  fd : Option ℕ := none
  ring : IoRing Sqe := {}
  pc : Pc := .idle
  prepared : ℕ := 0
  taken : List (Sqe × Sqe) := []
  returned : List (Except Bytes ℕ) := []

namespace Call

def op : Call → Bytes
  | .connect _ _ => text "connect"
  | .writeAll _ => text "send"
  | .readExact _ => text "recv"
  | .readSome => text "recv"

def request (fd : Option ℕ) (count : ℕ) : Call → Request
  | .connect addr port => .connect fd addr port
  | .writeAll data => .send fd (data.drop count)
  | .readExact len => .recv fd count (len - count)
  | .readSome => .recv fd 0 4096

def finished (count : ℕ) : Call → Bool
  | .connect _ _ => false
  | .writeAll data => data.length ≤ count
  | .readExact len => len ≤ count
  | .readSome => false

end Call

namespace State

/-- The constructor; `ringReady` is whether `io_uring_queue_init` succeeded. -/
def new (ringReady : Bool) : State := { ringReady }

variable (strerror : ℕ → Bytes)

def leave (s : State) (call : Call) (result : Except Bytes ℕ) : State :=
  match call, result with
  | .connect _ _, .error error =>
    { s with pc := .idle, fd := none, returned := s.returned ++ [.error error] }
  | _, result => { s with pc := .idle, returned := s.returned ++ [result] }

def loop (s : State) (call : Call) (count : ℕ) : State :=
  if call.finished count then s.leave call (.ok count) else { s with pc := .looping call count }

def handle (s : State) (call : Call) (count result : ℕ) : State :=
  match call with
  | .connect _ _ => s.leave call (.ok 0)
  | .writeAll _ => if result = 0 then s.leave call (.error (text "send error: connection closed"))
      else s.loop call (count + result)
  | .readExact _ => if result = 0 then s.leave call (.error (text "recv error: connection closed"))
      else s.loop call (count + result)
  | .readSome =>
    if result = 0 then
      if count = 0 then s.leave call (.error (text "recv error: empty response"))
        else s.leave call (.ok count)
    else s.loop call (count + result)

def connect (s : State) (ip : Bytes) (port : UInt16) (socket : Except ℕ ℕ) : State :=
  if s.ringReady = false then { s with
    returned := s.returned ++ [.error (text "io_uring queue init error")] }
  else
    match socket with
    | .error errno =>
      { s with fd := none,
               returned := s.returned ++ [.error (text "create socket error: " ++ strerror errno)] }
    | .ok fd =>
      match inetPton (ip.takeWhile (· ≠ 0)) with
      | none =>
        { s with fd := none, returned := s.returned ++ [.error (text "invalid server ip: " ++ ip)] }
      | some addr => { s with fd := some fd, pc := .looping (.connect addr port) 0 }

def start (s : State) (call : Call) : State :=
  if s.fd = none then { s with returned := s.returned ++ [.error (text "socket is not connected")] }
    else s.loop call 0

def close (s : State) : State := { s with fd := none }

end State

inductive Action where
  | connect (ip : Bytes) (port : UInt16) (socket : Except ℕ ℕ)
  | writeAll (data : Bytes)
  | readExact (len : ℕ)
  | readSome
  | close
  | getSqe
  | submit (n : ℕ)
  | submitFails (errno : ℕ)
  | complete (sqe : Sqe) (res : ℤ)
  | take
  | waitFails (errno : ℕ)

section step

variable (strerror : ℕ → Bytes)

/-- A step of the thread or of the kernel. The wait looks at the completion queue first. -/
def step (s : State) : Action → Option State
  | .connect ip port socket =>
    if s.pc = .idle then some (s.connect strerror ip port socket) else none
  | .writeAll data => if s.pc = .idle then some (s.start (.writeAll data)) else none
  | .readExact len => if s.pc = .idle then some (s.start (.readExact len)) else none
  | .readSome => if s.pc = .idle then some (s.start .readSome) else none
  | .close => if s.pc = .idle then some s.close else none
  | .getSqe =>
    match s.pc with
    | .looping call count =>
      if s.ring.sq.length < kEntries then
        let sqe : Sqe := ⟨call.request s.fd count, s.prepared⟩
        some { s with
            ring := s.ring.prepare sqe, pc := .submitting call count sqe,
            prepared := s.prepared + 1 }
      else some (s.leave call (.error (text "get " ++ call.op ++ text " sqe error")))
    | _ => none
  | .submit n =>
    match s.pc with
    | .submitting call count sqe =>
      some { s with ring := s.ring.submit n, pc := .waiting call count sqe }
    | _ => none
  | .submitFails errno =>
    match s.pc with
    | .submitting call _ _ =>
      some (s.leave call (.error (call.op ++ text " submit error: " ++ strerror errno)))
    | _ => none
  | .complete sqe res =>
    if sqe ∈ s.ring.inKernel then some { s with ring := s.ring.complete sqe res } else none
  | .take =>
    match s.pc, s.ring.cq with
    | .waiting call count sqe, (other, res) :: _ =>
      let s' := { s with ring := s.ring.advance 1, taken := s.taken ++ [(sqe, other)] }
      some (if res < 0 then s'.leave call
        (.error (call.op ++ text " error: " ++ strerror res.natAbs))
        else s'.handle call count res.toNat)
    | _, _ => none
  | .waitFails errno =>
    match s.pc, s.ring.cq with
    | .waiting call _ _, [] =>
      some (s.leave call (.error (call.op ++ text " wait cqe error: " ++ strerror errno)))
    | _, _ => none

end step

def Pc.own : Pc → List Sqe
  | .submitting _ _ sqe => [sqe]
  | .waiting _ _ sqe => [sqe]
  | _ => []

def Action.gets : Action → Bool
  | .getSqe => true
  | _ => false

def Action.fails : Action → Bool
  | .submitFails _ => true
  | .waitFails _ => true
  | _ => false

/-- No SQE is got while an operation of an earlier iteration is left in the ring. -/
def Drained (s : State) (a : Action) : Prop :=
  a.gets = true → s.ring.sq.length < kEntries → s.ring.outstanding = []

instance (s : State) (a : Action) : Decidable (Drained s a) := inferInstanceAs (Decidable (_ → _))

def Served (_ : State) (a : Action) : Prop := a.fails = false

inductive Effect (s : State) : Action → State → Prop
  | call {a t} : s.pc.own = [] → t.pc.own = [] → t.ring = s.ring → t.taken = s.taken →
      t.prepared = s.prepared →
      Effect s a t
  | prepared {t sqe} : s.pc.own = [] → t.pc.own = [sqe] → s.ring.sq.length < kEntries →
      t.ring = s.ring.prepare sqe →
      t.taken = s.taken → sqe.serial = s.prepared → t.prepared = s.prepared + 1 → Effect s .getSqe t
  | submitted {n t} : t.pc.own = s.pc.own → t.ring = s.ring.submit n → t.taken = s.taken →
      t.prepared = s.prepared →
      Effect s (.submit n) t
  | completed {sqe res t} : sqe ∈ s.ring.inKernel → t.pc.own = s.pc.own →
      t.ring = s.ring.complete sqe res →
      t.taken = s.taken → t.prepared = s.prepared → Effect s (.complete sqe res) t
  | took {own other res cq t} : s.pc.own = [own] → s.ring.cq = (other, res) :: cq → t.pc.own = [] →
      t.ring = s.ring.advance 1 → t.taken = s.taken ++ [(own, other)] → t.prepared = s.prepared →
      Effect s .take t
  | failed {a t} : a.fails = true → t.pc.own = [] → t.ring = s.ring → t.taken = s.taken →
      t.prepared = s.prepared →
      Effect s a t

section effects

variable {strerror : ℕ → Bytes} {s t : State} {a : Action}

structure Resumes (s t : State) : Prop where
  own : t.pc.own = []
  ring : t.ring = s.ring
  taken : t.taken = s.taken
  prepared : t.prepared = s.prepared

lemma resumes_leave (s : State) (call : Call) (result : Except Bytes ℕ) :
    Resumes s (s.leave call result) := by
  unfold State.leave
  split <;> exact ⟨rfl, rfl, rfl, rfl⟩

lemma resumes_loop (s : State) (call : Call) (count : ℕ) : Resumes s (s.loop call count) := by
  unfold State.loop
  split_ifs
  · exact resumes_leave s call _
  · exact ⟨rfl, rfl, rfl, rfl⟩

lemma resumes_handle (s : State) (call : Call) (count result : ℕ) :
    Resumes s (s.handle call count result) := by
  unfold State.handle
  cases call with
  | connect => exact resumes_leave s _ _
  | writeAll =>
    simp only
    split_ifs
    · exact resumes_leave s _ _
    · exact resumes_loop s _ _
  | readExact =>
    simp only
    split_ifs
    · exact resumes_leave s _ _
    · exact resumes_loop s _ _
  | readSome =>
    simp only
    split_ifs
    · exact resumes_leave s _ _
    · exact resumes_leave s _ _
    · exact resumes_loop s _ _

lemma resumes_start (hs : s.pc = .idle) (call : Call) : Resumes s (s.start call) := by
  unfold State.start
  split_ifs
  · exact ⟨congrArg Pc.own hs, rfl, rfl, rfl⟩
  · exact resumes_loop s call 0

lemma resumes_connect (hs : s.pc = .idle) (ip : Bytes) (port : UInt16) (socket : Except ℕ ℕ) :
    Resumes s (s.connect strerror ip port socket) := by
  have hown : s.pc.own = [] := congrArg Pc.own hs
  unfold State.connect
  split_ifs
  · exact ⟨hown, rfl, rfl, rfl⟩
  · cases socket with
    | error errno => exact ⟨hown, rfl, rfl, rfl⟩
    | ok fd =>
      simp only
      split
      · exact ⟨hown, rfl, rfl, rfl⟩
      · exact ⟨rfl, rfl, rfl, rfl⟩

lemma Resumes.call (h : Resumes s t) (hs : s.pc.own = []) : Effect s a t :=
  .call hs h.own h.ring h.taken h.prepared

lemma effect (h : step strerror s a = some t) : Effect s a t := by
  cases a with
  | connect ip port socket =>
    simp only [step, Option.ite_none_right_eq_some, Option.some.injEq] at h
    obtain ⟨hs, rfl⟩ := h
    exact (resumes_connect hs ip port socket).call (congrArg Pc.own hs)
  | writeAll data =>
    simp only [step, Option.ite_none_right_eq_some, Option.some.injEq] at h
    obtain ⟨hs, rfl⟩ := h
    exact (resumes_start hs _).call (congrArg Pc.own hs)
  | readExact len =>
    simp only [step, Option.ite_none_right_eq_some, Option.some.injEq] at h
    obtain ⟨hs, rfl⟩ := h
    exact (resumes_start hs _).call (congrArg Pc.own hs)
  | readSome =>
    simp only [step, Option.ite_none_right_eq_some, Option.some.injEq] at h
    obtain ⟨hs, rfl⟩ := h
    exact (resumes_start hs _).call (congrArg Pc.own hs)
  | close =>
    simp only [step, Option.ite_none_right_eq_some, Option.some.injEq] at h
    obtain ⟨hs, rfl⟩ := h
    have hown : s.pc.own = [] := congrArg Pc.own hs
    exact .call hown hown rfl rfl rfl
  | getSqe =>
    simp only [step] at h
    cases hpc : s.pc with
    | looping call count =>
      simp only [hpc] at h
      have hown : s.pc.own = [] := congrArg Pc.own hpc
      split_ifs at h with hfree
      · cases h
        exact .prepared hown rfl hfree rfl rfl rfl rfl
      · cases h
        exact (resumes_leave s call _).call hown
    | idle => simp [hpc] at h
    | submitting => simp [hpc] at h
    | waiting => simp [hpc] at h
  | submit n =>
    simp only [step] at h
    cases hpc : s.pc with
    | submitting call count sqe =>
      simp only [hpc, Option.some.injEq] at h
      subst h
      exact .submitted (congrArg Pc.own hpc).symm rfl rfl rfl
    | idle => simp [hpc] at h
    | looping => simp [hpc] at h
    | waiting => simp [hpc] at h
  | submitFails errno =>
    simp only [step] at h
    cases hpc : s.pc with
    | submitting call count sqe =>
      simp only [hpc, Option.some.injEq] at h
      subst h
      obtain ⟨hown, hring, htaken, hprepared⟩ := resumes_leave s call _
      exact .failed rfl hown hring htaken hprepared
    | idle => simp [hpc] at h
    | looping => simp [hpc] at h
    | waiting => simp [hpc] at h
  | complete sqe res =>
    simp only [step, Option.ite_none_right_eq_some, Option.some.injEq] at h
    obtain ⟨hmem, rfl⟩ := h
    exact .completed hmem rfl rfl rfl rfl
  | take =>
    simp only [step] at h
    cases hpc : s.pc with
    | waiting call count sqe =>
      cases hcq : s.ring.cq with
      | nil => simp [hpc, hcq] at h
      | cons p cq =>
        obtain ⟨other, res⟩ := p
        simp only [hpc, hcq, Option.some.injEq] at h
        have hown : s.pc.own = [sqe] := congrArg Pc.own hpc
        split_ifs at h with hres
        · subst h
          obtain ⟨hidle, hring, htaken, hprepared⟩ := resumes_leave
            { s with ring := s.ring.advance 1, taken := s.taken ++ [(sqe, other)] } call _
          exact .took hown hcq hidle hring htaken hprepared
        · subst h
          obtain ⟨hidle, hring, htaken, hprepared⟩ := resumes_handle
            { s with ring := s.ring.advance 1, taken := s.taken ++ [(sqe, other)] } call count
              res.toNat
          exact .took hown hcq hidle hring htaken hprepared
    | idle => simp [hpc] at h
    | looping => simp [hpc] at h
    | submitting => simp [hpc] at h
  | waitFails errno =>
    simp only [step] at h
    cases hpc : s.pc with
    | waiting call count sqe =>
      cases hcq : s.ring.cq with
      | nil =>
        simp only [hpc, hcq, Option.some.injEq] at h
        subst h
        obtain ⟨hown, hring, htaken, hprepared⟩ := resumes_leave s call _
        exact .failed rfl hown hring htaken hprepared
      | cons p cq => simp [hpc, hcq] at h
    | idle => simp [hpc] at h
    | looping => simp [hpc] at h
    | submitting => simp [hpc] at h

end effects

section matching

variable {strerror : ℕ → Bytes} {ready : Bool} {s t : State} {a : Action} {as : List Action}

/-- Every completion taken is that of the iteration's own SQE, and while an iteration waits
its SQE is alone in the ring. -/
structure Matched (s : State) : Prop where
  alone : ∀ sqe ∈ s.pc.own, s.ring.outstanding = [sqe]
  taken : ∀ p ∈ s.taken, p.1 = p.2

lemma Matched.idle (h : Matched s) (hown : t.pc.own = []) (htaken : t.taken = s.taken) :
    Matched t := by
  refine ⟨?_, ?_⟩
  · rw [hown]
    exact nofun
  · rw [htaken]
    exact h.taken

lemma Matched.permuted (h : Matched s) (hown : t.pc.own = s.pc.own) (htaken : t.taken = s.taken)
    (hring : t.ring.outstanding.Perm s.ring.outstanding) : Matched t := by
  refine ⟨?_, ?_⟩
  · intro sqe hsqe
    rw [hown] at hsqe
    rw [h.alone sqe hsqe] at hring
    exact List.perm_singleton.mp hring
  · rw [htaken]
    exact h.taken

lemma front_alone {r : IoRing Sqe} {own other : Sqe} {res : ℤ} {cq : List (Sqe × ℤ)}
    (h : r.outstanding = [own])
    (hcq : r.cq = (other, res) :: cq) : own = other ∧ (r.advance 1).outstanding = [] := by
  have hmem : other ∈ r.outstanding := by
    rw [IoRing.outstanding_eq, hcq]
    exact List.mem_append_right _ List.mem_cons_self
  have hlen := IoRing.length_outstanding r
  rw [h, hcq, List.length_singleton, List.length_cons] at hlen
  rw [h, List.mem_singleton] at hmem
  refine ⟨hmem.symm, List.eq_nil_of_length_eq_zero ?_⟩
  have hadvanced := IoRing.length_outstanding (r.advance 1)
  simp only [IoRing.advance, IoRing.unserved, hcq, List.drop_one, List.tail_cons]
    at hadvanced hlen ⊢
  omega

lemma matched_step (h : Matched s) (hok : Drained s a) (he : Effect s a t) : Matched t := by
  cases he with
  | call _ hown _ htaken => exact h.idle hown htaken
  | @prepared _ sqe _ hown hfree hring htaken =>
    refine ⟨?_, ?_⟩
    · intro sqe' hsqe
      rw [hown, List.mem_singleton] at hsqe
      have hperm := IoRing.outstanding_prepare (r := s.ring) (a := sqe)
      rw [hok rfl hfree] at hperm
      rw [hring, hsqe]
      exact List.perm_singleton.mp hperm
    · rw [htaken]
      exact h.taken
  | submitted hown hring htaken =>
    apply h.permuted hown htaken
    rw [hring]
    exact IoRing.outstanding_submit
  | completed hmem hown hring htaken =>
    apply h.permuted hown htaken
    rw [hring]
    exact IoRing.outstanding_complete hmem _
  | @took own other _ _ _ hs hcq hown _ htaken =>
    have halone := h.alone own (by rw [hs]; exact List.mem_singleton_self own)
    refine ⟨?_, ?_⟩
    · rw [hown]
      exact nofun
    · intro p hp
      rw [htaken, List.mem_append, List.mem_singleton] at hp
      rcases hp with hp | rfl
      · exact h.taken p hp
      · exact (front_alone halone hcq).1
  | failed _ hown _ htaken => exact h.idle hown htaken

lemma matched_run (h : Run (step strerror) Drained (.new ready) as s) : Matched s :=
  h.invariant ⟨nofun, nofun⟩ (fun _ _ _ hu hok hs => matched_step hu hok (effect hs))

theorem own_completions (h : Run (step strerror) Drained (.new ready) as s) :
    ∀ p ∈ s.taken, p.1 = p.2 := (matched_run h).taken

def loopback : Bytes := text "127.0.0.1"

def connectSqe (fd serial : ℕ) : Sqe := ⟨.connect (some fd) [127, 0, 0, 1] 80, serial⟩

def servedRun : List Action :=
  [.connect loopback 80 (.ok 3), .getSqe, .submit 1, .complete (connectSqe 3 0) 0, .take,
    .readExact 4, .getSqe,
    .submit 1, .complete ⟨.recv (some 3) 0 4, 1⟩ 4, .take, .close]

theorem own_completions_sample : ∃ s, Run (step (fun _ => [])) Drained (.new true) servedRun s ∧
    (∀ p ∈ s.taken, p.1 = p.2) ∧ s.taken.length = 2 ∧ s.returned.length = 2 := by
  have hexec : (exec (step (fun _ => [])) (.new true) servedRun).any (fun s => s.taken.length = 2 ∧
      s.returned.length = 2) = true := by
    decide +kernel
  obtain ⟨s, hs, hp⟩ := exec_any hexec
  have hdrained : Allowed (step (fun _ => [])) Drained (.new true) servedRun := by
    decide +kernel
  have hrun : Run (step (fun _ => [])) Drained (.new true) servedRun s := .of_exec hs hdrained
  obtain ⟨htaken, hreturned⟩ := of_decide_eq_true hp
  exact ⟨s, hrun, own_completions hrun, htaken, hreturned⟩

/-- The first `Connect` is interrupted while it waits, and the second takes its completion. -/
def interruptedRun : List Action :=
  [.connect loopback 80 (.ok 3), .getSqe, .submit 1, .waitFails 4, .connect loopback 80 (.ok 4),
    .getSqe, .submit 1,
    .complete (connectSqe 3 0) 0, .take]

theorem stale_completion : ¬ ∀ as s, Run (step (fun _ => [])) Any (.new true) as s →
    ∀ p ∈ s.taken, p.1 = p.2 := by
  intro hall
  have hexec : (exec (step (fun _ => [])) (.new true) interruptedRun).any
      (fun s => s.taken = [(connectSqe 4 1, connectSqe 3 0)]) = true := by
    decide +kernel
  obtain ⟨s, hs, hp⟩ := exec_any hexec
  have hallowed : Allowed (step (fun _ => [])) Any (.new true) interruptedRun := by
    decide +kernel
  have hown := hall _ s (.of_exec hs hallowed)
  rw [of_decide_eq_true hp] at hown
  exact absurd (hown _ (List.mem_singleton_self _)) (by decide)

def Clean (s : State) : Prop := s.ring.outstanding = s.pc.own

lemma Clean.permuted (h : Clean s) (hown : t.pc.own = s.pc.own)
    (hring : t.ring.outstanding.Perm s.ring.outstanding) :
    Clean t := by
  rw [Clean, hown]
  rw [h] at hring
  cases hpc : s.pc with
  | idle =>
    rw [hpc] at hring
    exact List.perm_nil.mp hring
  | looping =>
    rw [hpc] at hring
    exact List.perm_nil.mp hring
  | submitting =>
    rw [hpc] at hring
    exact List.perm_singleton.mp hring
  | waiting =>
    rw [hpc] at hring
    exact List.perm_singleton.mp hring

lemma clean_step (h : Clean s) (hserved : Served s a) (he : Effect s a t) : Clean t := by
  cases he with
  | call hidle hown hring =>
    rw [Clean, hown, hring]
    exact h.trans hidle
  | @prepared _ sqe hidle hown _ hring =>
    have hperm := IoRing.outstanding_prepare (r := s.ring) (a := sqe)
    rw [h.trans hidle] at hperm
    rw [Clean, hown, hring]
    exact List.perm_singleton.mp hperm
  | submitted hown hring => exact h.permuted hown (hring ▸ IoRing.outstanding_submit)
  | completed hmem hown hring => exact h.permuted hown (hring ▸ IoRing.outstanding_complete hmem _)
  | took hwaiting hcq hown hring =>
    rw [Clean, hown, hring]
    exact (front_alone (h.trans hwaiting) hcq).2
  | failed hfails => exact absurd hfails (Bool.eq_false_iff.mp hserved)

lemma drained_of_served (h : Run (step strerror) Served (.new ready) as s) :
    Run (step strerror) Drained (.new ready) as s := by
  induction h with
  | nil => exact .nil
  | @snoc as t u a hr hserved hs ih =>
    have hclean : Clean t := hr.invariant rfl (fun _ _ _ hu hok hs => clean_step hu hok (effect hs))
    refine .snoc ih ?_ hs
    intro hgets _
    cases effect hs with
    | call hidle => exact hclean.trans hidle
    | prepared hidle => exact hclean.trans hidle
    | submitted => cases hgets
    | completed => cases hgets
    | took => cases hgets
    | failed hfails => exact absurd hfails (Bool.eq_false_iff.mp hserved)

/-- A client none of whose submissions and waits fails takes its own completions. -/
theorem served_completions (h : Run (step strerror) Served (.new ready) as s) :
    ∀ p ∈ s.taken, p.1 = p.2 := (matched_run (drained_of_served h)).taken

def Numbered (s : State) : Prop := ∀ sqe ∈ s.ring.outstanding, sqe.serial < s.prepared

lemma Numbered.of_subset (h : Numbered s)
    (hring : ∀ sqe ∈ t.ring.outstanding, sqe ∈ s.ring.outstanding)
    (hprepared : t.prepared = s.prepared) : Numbered t := by
  intro sqe hsqe
  rw [hprepared]
  exact h sqe (hring sqe hsqe)

lemma numbered_step (h : Numbered s) (he : Effect s a t) : Numbered t := by
  cases he with
  | call _ _ hring _ hprepared => exact h.of_subset (fun _ hx => hring ▸ hx) hprepared
  | @prepared _ sqe _ _ _ hring _ hserial hprepared =>
    intro x hx
    rw [hring, IoRing.outstanding_prepare.mem_iff, List.mem_cons] at hx
    rw [hprepared]
    rcases hx with rfl | hx
    · omega
    · exact (h x hx).trans (Nat.lt_succ_self _)
  | submitted _ hring _ hprepared =>
    exact h.of_subset (fun _ hx => IoRing.outstanding_submit.mem_iff.mp (hring ▸ hx)) hprepared
  | completed hmem _ hring _ hprepared =>
    exact h.of_subset (fun _ hx => (IoRing.outstanding_complete hmem _).mem_iff.mp (hring ▸ hx))
      hprepared
  | took _ _ _ hring _ hprepared =>
    refine h.of_subset ?_ hprepared
    intro x hx
    rw [hring, IoRing.outstanding_eq, List.mem_append, IoRing.advance, List.map_drop] at hx
    rw [IoRing.outstanding_eq, List.mem_append]
    exact hx.imp_right List.mem_of_mem_drop
  | failed _ _ hring _ hprepared => exact h.of_subset (fun _ hx => hring ▸ hx) hprepared

variable (strerror) in
lemma take_other {call : Call} {count : ℕ} {own other : Sqe} {res : ℤ} {cq : List (Sqe × ℤ)}
    (hpc : s.pc = .waiting call count own) (hcq : s.ring.cq = (other, res) :: cq) :
    ∃ t, step strerror s .take = some t ∧ (own, other) ∈ t.taken := by
  obtain ⟨t, ht⟩ : ∃ t, step strerror s .take = some t := by
    simp only [step, hpc, hcq]
    exact ⟨_, rfl⟩
  refine ⟨t, ht, ?_⟩
  cases effect ht with
  | call hidle =>
    rw [hpc] at hidle
    exact absurd hidle (List.cons_ne_nil own [])
  | took hwaiting hcq' _ _ htaken =>
    rw [hpc] at hwaiting
    rw [hcq] at hcq'
    cases hwaiting
    cases hcq'
    rw [htaken]
    exact List.mem_append_right _ (List.mem_singleton_self _)
  | failed hfails => cases hfails

def State.gotSqe (s : State) (call : Call) (count : ℕ) (sqe : Sqe) : State :=
  { s with ring := s.ring.prepare sqe, pc := .submitting call count sqe,
           prepared := s.prepared + 1 }

def State.submitted (s : State) (call : Call) (count : ℕ) (sqe : Sqe) : State :=
  { s with ring := s.ring.submit s.ring.sq.length, pc := .waiting call count sqe }

/-- Where the condition fails, the kernel can make the iteration take another's completion. -/
lemma exists_mismatch (h : Run (step strerror) Any (.new ready) as s) {call : Call} {count : ℕ}
    (hpc : s.pc = .looping call count)
    (hfree : s.ring.sq.length < kEntries) (hleft : s.ring.outstanding ≠ []) :
    ∃ bs t, Run (step strerror) Any s bs t ∧ ∃ p ∈ t.taken, p.1 ≠ p.2 := by
  have hnumbered : Numbered s :=
    h.invariant nofun (fun _ _ _ hu _ hs => numbered_step hu (effect hs))
  obtain ⟨sqe, hsqe⟩ : ∃ sqe : Sqe, sqe = ⟨call.request s.fd count, s.prepared⟩ := ⟨_, rfl⟩
  have hne : ∀ other ∈ s.ring.outstanding, sqe ≠ other := by
    rintro other hother rfl
    have hlt := hnumbered _ hother
    rw [hsqe] at hlt
    exact absurd hlt (Nat.lt_irrefl _)
  have hgot : step strerror s .getSqe = some (s.gotSqe call count sqe) := by
    simp only [step, hpc]
    rw [if_pos hfree, hsqe]
    rfl
  obtain ⟨sent, hsent⟩ : ∃ sent, sent = (s.gotSqe call count sqe).submitted call count sqe :=
    ⟨_, rfl⟩
  have hpc' : sent.pc = .waiting call count sqe := by rw [hsent]; rfl
  have hcq' : sent.ring.cq = s.ring.cq := by rw [hsent]; rfl
  have hrun : Run (step strerror) Any s [.getSqe, .submit (s.gotSqe call count sqe).ring.sq.length]
      sent :=
    .cons trivial hgot (.cons trivial (by rw [hsent]; rfl) .nil)
  cases hcq : s.ring.cq with
  | cons p cq =>
    obtain ⟨other, res⟩ := p
    obtain ⟨t, ht, hmem⟩ := take_other strerror hpc' (hcq'.trans hcq)
    refine ⟨_, t, .snoc hrun trivial ht, _, hmem, hne other ?_⟩
    rw [IoRing.outstanding_eq, hcq]
    exact List.mem_append_right _ List.mem_cons_self
  | nil =>
    obtain ⟨other, hother⟩ := List.exists_mem_of_ne_nil _ hleft
    have hkernel : other ∈ sent.ring.inKernel := by
      simp only [IoRing.outstanding, hcq, List.map_nil, List.append_nil, List.mem_append] at hother
      simp only [hsent, State.submitted, State.gotSqe, IoRing.submit, IoRing.prepare,
        List.take_length, List.mem_append]
      exact hother.elim (fun hsq => .inr (.inl hsq)) .inl
    have hposted : step strerror sent (.complete other 0) = some { sent with
        ring := sent.ring.complete other 0 } :=
      if_pos hkernel
    have hfront : (sent.ring.complete other 0).cq = (other, 0) :: [] :=
      congrArg (· ++ [(other, 0)]) (hcq'.trans hcq)
    obtain ⟨t, ht, hmem⟩ :=
      take_other strerror (s := { sent with ring := sent.ring.complete other 0 }) hpc' hfront
    exact ⟨_, t, .snoc (.snoc hrun trivial hposted) trivial ht, _, hmem, hne other hother⟩

end matching

end TcpClient

end KimRpc.Client
