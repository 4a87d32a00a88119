import KimRpc.Server.Turns

/-! A journal kept beside the event loop: which requests were dispatched and from which
input, which coroutines were resumed and in which states, and for each context, since it
was acquired, the responses put in its queue and the bytes the kernel took of them. -/

namespace KimRpc.Server

open Library.Runs Wire

structure Journal where
  dispatches : List (ConnectionContext × Task) := []
  resumptions : List (Reactor × Coro) := []
  delivered : ℕ → List Coro := fun _ => []
  accepted : ℕ → Bytes := fun _ => []

namespace Journal

variable (g : Journal) (p : ℕ)

def opened : Journal :=
  { g with delivered := Function.update g.delivered p [],
           accepted := Function.update g.accepted p [] }

def dispatch (c : ConnectionContext) (tasks : List Task) : Journal :=
  { g with dispatches := g.dispatches ++ tasks.map (fun task => (c, task)) }

def pushed (rs : List (Reactor × Coro)) : List Coro :=
  (rs.filter (fun r => r.1.target r.2 = some p)).map Prod.snd

def resume (rs : List (Reactor × Coro)) : Journal :=
  { g with resumptions := g.resumptions ++ rs, delivered := fun p => g.delivered p ++ pushed p rs }

def accept (data : Bytes) : Journal :=
  { g with accepted := Function.update g.accepted p (g.accepted p ++ data) }

end Journal

namespace Reactor

variable (D : Decoding) (s t : Reactor) (a : Action) (g g' : Journal) (p : ℕ)

/-- The states in which `handleNotify` resumes the coroutines. -/
def resumptions (s : Reactor) : List Coro → List (Reactor × Coro)
  | [] => []
  | h :: coros => (s, h) :: resumptions (s.resume h) coros

def noteTurn (e : Cqe) : Journal :=
  match e.op, e.ctx with
  | .accept, _ => if 0 ≤ e.result then g.opened s.mgr.idle.1 else g
  | .recv, some p => g.dispatch ((s.copyOut e p).ctx p) (t.tasks.drop s.tasks.length)
  | .notify, _ => g.resume (({ s with readyCoros := [] } : Reactor).resumptions s.readyCoros)
  | _, _ => g

def noteSent (i n : ℕ) : Journal :=
  match s.ops[i]? with
  | none => g
  | some o =>
    match o.sqe.ctx with
    | none => g
    | some p => g.accept p (o.sqe.data.take n)

def note (s : Reactor) (a : Action) (t : Reactor) (g : Journal) : Journal :=
  match a with
  | .handle =>
    match s.cq with
    | [] => g
    | e :: rest => noteTurn { s with cq := rest } t g e
  | .sendDone i n => s.noteSent g i n
  | _ => g

def record : Reactor × Journal → Action → Option (Reactor × Journal) := noted (Reactor.step D) note

inductive Change : Prop
  | steady (h : Steady s t) (hd : g'.dispatches = g.dispatches)
      (hr : g'.resumptions = g.resumptions)
      (hp : g'.delivered = g.delivered)
  | accepted (e : Cqe) (ha : a = .handle) (he : e ∈ s.cq.head?) (hop : e.op = .accept)
      (hresult : 0 ≤ e.result)
      (h : Steady (s.acquire e.result.toNat) t) (hg : g' = g.opened s.mgr.idle.1)
  | read (e : Cqe) (p : ℕ) (c : ConnectionContext) (he : e ∈ s.cq.head?) (hop : e.op = .recv)
      (hctx : e.ctx = some p)
      (h : Steady (s.dispatch p (D.uringDecoder.drain c.input).1) t)
      (hmapped : s.find (s.ctx p).fd = some p) (hid : c.connId = (s.ctx p).connId)
      (hg : g' = g.dispatch c (t.tasks.drop s.tasks.length))
  | notified (e : Cqe) (rest : List Cqe) (ha : a = .handle) (hcq : s.cq = e :: rest)
      (hop : e.op = .notify)
      (h : Steady ({ s with cq := rest } : Reactor).handleNotify t)
      (hg : g' =
        g.resume (({ s with cq := rest, readyCoros := [] } : Reactor).resumptions s.readyCoros))
  | answered (i : ℕ) (responseStr : Option Bytes) (ha : a = .workerDone i responseStr)
      (ht : t = s.workerDone i responseStr) (hg : g' = g)
  | sent (p n : ℕ) (h : Steady (s.modify p (fun ctx => ctx.advance n)) t) (hn : 0 < n)
      (hmapped : s.find (s.ctx p).fd = some p) (hq : (s.ctx p).outQueue ≠ []) (hg : g' = g)

variable {D s t a g g' p}

lemma retryDeferred_shape : ∃ sq acceptPending notifyPending, s.retryDeferred =
    { s with pc := .draining, sq := sq, acceptPending := acceptPending,
             notifyPending := notifyPending } := by
  have haccept : ∀ u : Reactor, ∃ sq b, (if u.acceptPending then
      (u.submitAccept.map (fun t => { t with acceptPending := false })).getD u else u) =
        { u with sq := sq, acceptPending := b } := by
    intro u
    split_ifs
    · cases h : u.submitAccept with
      | none => exact ⟨u.sq, u.acceptPending, rfl⟩
      | some t => exact ⟨_, false, by rw [submit_eq h]; rfl⟩
    · exact ⟨u.sq, u.acceptPending, rfl⟩
  have hnotify : ∀ u : Reactor, ∃ sq b, (if u.notifyPending then
      (u.submitNotifyRead.map (fun t => { t with notifyPending := false })).getD u else u) =
        { u with sq := sq, notifyPending := b } := by
    intro u
    split_ifs
    · cases h : u.submitNotifyRead with
      | none => exact ⟨u.sq, u.notifyPending, rfl⟩
      | some t => exact ⟨_, false, by rw [submit_eq h]; rfl⟩
    · exact ⟨u.sq, u.notifyPending, rfl⟩
  obtain ⟨sq, a, ha⟩ := haccept s
  obtain ⟨sq', b, hb⟩ := hnotify { s with sq := sq, acceptPending := a }
  refine ⟨sq', a, b, ?_⟩
  simp only [retryDeferred]
  rw [ha, hb]

lemma complete_shape (i : ℕ) (result : ℤ) (data : Bytes) :
    ∃ ops cq, s.complete i result data = { s with ops := ops, cq := cq } := by
  unfold complete
  cases s.ops[i]? with
  | none => exact ⟨s.ops, s.cq, rfl⟩
  | some o => exact ⟨_, _, rfl⟩

lemma effect_steady (hhandle : a ≠ .handle)
    (hanswer : ∀ i responseStr, a ≠ .workerDone i responseStr) :
    Steady s (s.effect D a) := by
  cases a with
  | handle => exact absurd rfl hhandle
  | workerDone i responseStr => exact absurd rfl (hanswer i responseStr)
  | wake =>
    obtain ⟨sq, b, b', h⟩ := retryDeferred_shape (s := s)
    simp only [effect, h]
    exact .of_mgr rfl rfl rfl rfl rfl
  | acceptDone i fd =>
    obtain ⟨ops, cq, h⟩ := complete_shape (s := s) i fd []
    simp only [effect, h]
    exact .of_mgr rfl rfl rfl rfl rfl
  | recvDone i data =>
    obtain ⟨ops, cq, h⟩ := complete_shape (s := s) i data.length data
    simp only [effect, h]
    cases (s.ops[i]?).bind Op.socket <;> exact .of_mgr rfl rfl rfl rfl rfl
  | sendDone i n =>
    obtain ⟨ops, cq, h⟩ := complete_shape (s := s) i n []
    simp only [effect, h]
    exact .of_mgr rfl rfl rfl rfl rfl
  | notifyDone i =>
    obtain ⟨ops, cq, h⟩ := complete_shape (s := s) i 8 []
    simp only [effect, h]
    exact .of_mgr rfl rfl rfl rfl rfl
  | opFail i result =>
    obtain ⟨ops, cq, h⟩ := complete_shape (s := s) i result []
    simp only [effect, h]
    exact .of_mgr rfl rfl rfl rfl rfl
  | _ => exact .of_mgr rfl rfl rfl rfl rfl

lemma noteSent_requests (i n : ℕ) : (s.noteSent g i n).dispatches = g.dispatches ∧
    (s.noteSent g i n).resumptions = g.resumptions ∧
    (s.noteSent g i n).delivered = g.delivered := by
  unfold noteSent
  cases s.ops[i]? with
  | none => exact ⟨rfl, rfl, rfl⟩
  | some o =>
    simp only
    cases o.sqe.ctx <;> exact ⟨rfl, rfl, rfl⟩

lemma steady_retryNotify : Steady s s.retryNotify := by
  unfold retryNotify submitNotifyRead
  cases h : s.submit ⟨.notify, 0, none, [], 0⟩ with
  | none => exact .of_mgr rfl rfl rfl rfl rfl
  | some t =>
    cases submit_eq h
    exact .of_mgr rfl rfl rfl rfl rfl

lemma change_turn {e : Cqe} {rest : List Cqe} (h : s.view.Sound) (hcq : s.cq = e :: rest)
    (ht : t = ({ s with cq := rest } : Reactor).handleCqe D e)
    (hg : g' = noteTurn { s with cq := rest } t g e) :
    Change D s t .handle g g' := by
  have hplaced := placed hcq h
  have hturn := turn_handleCqe (D := D) h hcq
  rw [← ht] at hturn
  have hpopped : Steady s { s with cq := rest } := .of_mgr rfl rfl rfl rfl rfl
  cases hturn with
  | calm _ haccept hnotify hc =>
    have hs : Steady s t := hpopped.trans hc.toSteady
    rw [noteTurn] at hg
    cases hop : e.op with
    | accept =>
      rw [hop] at hg
      simp only [not_le.mpr (haccept hop), ↓reduceIte] at hg
      subst hg
      exact .steady hs rfl rfl rfl
    | recv =>
      rw [hop] at hg
      cases hctx : e.ctx with
      | none => simp [hctx, misplaced, hop] at hplaced
      | some p =>
        rw [hctx] at hg
        refine .steady hs ?_ ?_ ?_
        · rw [hg]
          simp [Journal.dispatch, hs.tasks]
        · rw [hg]
          rfl
        · rw [hg]
          rfl
    | send =>
      rw [hop] at hg
      simp only at hg
      subst hg
      exact .steady hs rfl rfl rfl
    | notify => exact absurd hop hnotify
  | accepted hop hresult hc =>
    refine .accepted e rfl (by simp [hcq]) hop hresult { hc with } ?_
    rw [hg]
    simp only [noteTurn, hop, hresult, ↓reduceIte]
  | notified hop ht =>
    refine .notified e rest rfl hcq hop ?_ ?_
    · rw [ht]
      exact steady_retryNotify
    · rw [hg]
      simp only [noteTurn, hop]
  | read p hop hctx hmapped hc =>
    refine .read e p _ (by simp [hcq]) hop hctx { hc with } hmapped ?_ ?_
    · exact (calm_copyOut e).connId p
    · rw [hg]
      simp only [noteTurn, hop, hctx]
  | sent p hop hctx hmapped hresult hq hc =>
    refine .sent p e.result.toNat { hc with } ?_ hmapped hq ?_
    · omega
    · rw [hg]
      simp only [noteTurn, hop, hctx]

lemma change_step (h : s.view.Sound) (hs : s.step D a = some t) (hg : g' = note s a t g) :
    Change D s t a g g' := by
  obtain ⟨hen, ht⟩ := step_cases hs
  by_cases hhandle : a = .handle
  · subst hhandle
    cases hcq : s.cq with
    | nil => exact absurd hcq hen.2
    | cons e rest =>
      simp only [effect, hcq] at ht
      simp only [note, hcq] at hg
      exact change_turn h hcq ht hg
  by_cases hanswer : ∃ i responseStr, a = .workerDone i responseStr
  · obtain ⟨i, responseStr, rfl⟩ := hanswer
    exact .answered i responseStr rfl ht hg
  · have hsteady : Steady s (s.effect D a) := by
      apply effect_steady hhandle
      intro i responseStr heq
      exact hanswer ⟨i, responseStr, heq⟩
    rw [← ht] at hsteady
    refine .steady hsteady ?_ ?_ ?_
    all_goals
      rw [hg]
      cases a with
      | handle => exact absurd rfl hhandle
      | sendDone i n => simp only [note, noteSent_requests]
      | _ => rfl

end Reactor

end KimRpc.Server
