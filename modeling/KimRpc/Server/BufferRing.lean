import KimRpc.Library.SlotRing
import KimRpc.Server.StreamDispatch
import KimRpc.Server.UserData

/-! The event loop on raw completions. All connections receive into one pool of buffers, which
the loop and the kernel pass to each other through a ring; a completion has only the number of
a buffer. This loop is the one whose completions carry their bytes. -/

namespace KimRpc.Server

open Library Library.Runs Library.StreamDecoding Wire

def kBufRingEntries : ℕ := 1024

structure RawCqe where
  userData : UInt64
  res : ℤ
  flags : UInt32
  deriving DecidableEq, Repr

namespace Reactor

variable (D : Decoding) (s t : Reactor) (cq : List Cqe) (fd p : ℕ)

def behind : Reactor := { s with cq := cq }

section behind

variable {s t}

@[simp] lemma behind_cq : (s.behind cq).cq = cq := rfl
@[simp] lemma behind_mgr : (s.behind cq).mgr = s.mgr := rfl
@[simp] lemma behind_ctx : (s.behind cq).ctx p = s.ctx p := rfl
@[simp] lemma behind_find : (s.behind cq).find fd = s.find fd := rfl
@[simp] lemma behind_modify (f : ConnectionContext → ConnectionContext) :
    (s.behind cq).modify p f = (s.modify p f).behind cq := rfl
@[simp] lemma behind_acquire : (s.behind cq).acquire fd = (s.acquire fd).behind cq := rfl
@[simp] lemma behind_dispatch (requests : List Request) :
    (s.behind cq).dispatch p requests = (s.dispatch p requests).behind cq := rfl

@[simp] lemma behind_submit (e : Sqe) :
    (s.behind cq).submit e = (s.submit e).map (fun t => t.behind cq) := by
  have hsq : (s.behind cq).sq = s.sq := rfl
  rw [submit, submit, hsq]
  split_ifs <;> rfl

@[simp] lemma behind_submitAccept :
    (s.behind cq).submitAccept = s.submitAccept.map (fun t => t.behind cq) := behind_submit cq _

@[simp] lemma behind_submitNotifyRead :
    (s.behind cq).submitNotifyRead = s.submitNotifyRead.map (fun t => t.behind cq) :=
  behind_submit cq _

@[simp] lemma behind_submitRecv :
    (s.behind cq).submitRecv fd = (s.submitRecv fd).map (fun t => t.behind cq) := by
  simp only [submitRecv, behind_find, behind_ctx, behind_submit]
  cases s.find fd with
  | none => rfl
  | some p =>
    simp only [Option.map_map]
    rfl

@[simp] lemma behind_submitSend :
    (s.behind cq).submitSend fd = (s.submitSend fd).map (fun t => t.behind cq) := by
  simp only [submitSend, behind_find, behind_ctx, behind_submit]
  cases s.find fd with
  | none => rfl
  | some p =>
    simp only
    cases (s.ctx p).outQueue with
    | nil => rfl
    | cons front rest =>
      simp only [Option.map_map]
      rfl

@[simp] lemma behind_close : (s.behind cq).close fd = (s.close fd).behind cq := by
  simp only [Reactor.close, behind_find]
  cases s.find fd <;> rfl

@[simp] lemma behind_orClose (submitted : Option Reactor) :
    (s.behind cq).orClose fd (submitted.map (fun t => t.behind cq)) =
    (s.orClose fd submitted).behind cq := by
  cases submitted with
  | none => exact behind_close cq fd
  | some t => rfl

@[simp] lemma behind_retryAccept : (s.behind cq).retryAccept = s.retryAccept.behind cq := by
  simp only [retryAccept, behind_submitAccept]
  cases s.submitAccept <;> rfl

@[simp] lemma behind_retryNotify : (s.behind cq).retryNotify = s.retryNotify.behind cq := by
  simp only [retryNotify, behind_submitNotifyRead]
  cases s.submitNotifyRead <;> rfl

@[simp] lemma behind_handleAccept (result : ℤ) :
    (s.behind cq).handleAccept result = (s.handleAccept result).behind cq := by
  simp only [handleAccept]
  split_ifs
  · exact behind_retryAccept cq
  · simp only [behind_acquire, behind_submitRecv, behind_orClose, behind_retryAccept]

@[simp] lemma behind_handleRecv (result : ℤ) :
    (s.behind cq).handleRecv D p result = (s.handleRecv D p result).behind cq := by
  simp only [handleRecv, behind_ctx, behind_dispatch, behind_modify, behind_close,
    behind_submitRecv, behind_orClose]
  cases (D.uringDecoder.drain (s.ctx p).input).2 with
  | stopped => split_ifs <;> rfl
  | pending rest =>
    simp only
    split_ifs <;> rfl

@[simp] lemma behind_continueSend :
    (s.behind cq).continueSend p = (s.continueSend p).behind cq := by
  simp only [continueSend, behind_ctx, behind_modify, behind_submitSend, behind_orClose]
  split_ifs <;> rfl

@[simp] lemma behind_handleSend (result : ℤ) :
    (s.behind cq).handleSend p result = (s.handleSend p result).behind cq := by
  simp only [handleSend, behind_ctx]
  split_ifs
  · exact behind_close cq _
  cases (s.ctx p).outQueue with
  | nil => rfl
  | cons front rest =>
    simp only [behind_modify, behind_ctx, behind_submitRecv]
    split_ifs
    · cases Reactor.submitRecv _ _ with
      | none => exact behind_close cq _
      | some t => exact behind_continueSend cq p
    · exact behind_continueSend cq p
    · exact behind_continueSend cq p

@[simp] lemma behind_resume (h : Coro) : (s.behind cq).resume h = (s.resume h).behind cq := by
  simp only [resume, deliverResponse, behind_find]
  split_ifs
  · rfl
  cases s.find h.fd with
  | none => rfl
  | some p =>
    simp only [behind_ctx, behind_modify, behind_submitSend, behind_orClose]
    split_ifs <;> rfl

@[simp] lemma behind_handleNotify : (s.behind cq).handleNotify = s.handleNotify.behind cq := by
  have hfold : ∀ (coros : List Coro) (u : Reactor), coros.foldl resume (u.behind cq) =
      (coros.foldl resume u).behind cq := by
    intro coros
    induction coros with
    | nil => exact fun _ => rfl
    | cons h coros ih =>
      intro u
      rw [List.foldl_cons, behind_resume, ih, List.foldl_cons]
  exact hfold s.readyCoros { s with readyCoros := [] }

@[simp] lemma behind_copyOut (e : Cqe) : (s.behind cq).copyOut e p = (s.copyOut e p).behind cq := by
  rw [copyOut, copyOut, behind_ctx]
  split_ifs <;> rfl

lemma behind_handler (e : Cqe) : (s.behind cq).handler D e = (s.handler D e).behind cq := by
  unfold handler
  cases e.op <;> cases e.ctx <;>
    simp only [behind_handleAccept, behind_handleRecv, behind_handleSend, behind_handleNotify,
      behind_retryNotify]
  all_goals rfl

lemma behind_entered (e : Cqe) :
    (s.behind cq).entered e p = (s.entered e p).map (fun t => t.behind cq) := by
  simp only [entered, behind_copyOut, behind_mgr]
  split_ifs <;> rfl

lemma behind_handleCqe (e : Cqe) : (s.behind cq).handleCqe D e = (s.handleCqe D e).behind cq := by
  unfold handleCqe
  cases e.ctx with
  | none => exact behind_handler D cq e
  | some p =>
    simp only [behind_entered, behind_copyOut]
    cases s.entered e p with
    | none => rfl
    | some t => exact behind_handler D cq e

inductive Posts (a : Action) : Prop
  | nothing (hcq : (s.effect D a).cq = [])
  | one (i : ℕ) (o : Op) (result : ℤ) (data : Bytes) (hi : s.ops[i]? = some o)
      (hcq : (s.effect D a).cq = [⟨o.sqe.op, o.sqe.ctx, result, data⟩])
      (hdata : data = [] ∨ a = .recvDone i data ∧ result = data.length)

variable {D}

lemma effect_posts {a : Action} (ha : a ≠ .handle) (hcq : s.cq = []) (hen : s.Enabled a) :
    s.Posts D a := by
  have hcomplete : ∀ i result data, s.ops[i]? ≠ none →
      ∃ o, s.ops[i]? = some o ∧
      (s.complete i result data).cq = [⟨o.sqe.op, o.sqe.ctx, result, data⟩] := by
    intro i result data hi
    obtain ⟨o, ho⟩ := Option.ne_none_iff_exists'.mp hi
    exact ⟨o, ho, by rw [complete_eq ho, hcq]; rfl⟩
  have hkernel : ∀ {i op}, s.InKernel i op → s.ops[i]? ≠ none := by
    rintro i op ⟨o, ho, -⟩
    rw [Option.mem_def.mp ho]
    simp
  cases a with
  | handle => exact absurd rfl ha
  | wake => exact .nothing (quiet_retryDeferred.cq.trans hcq)
  | acceptDone i fd =>
    obtain ⟨o, ho, heq⟩ := hcomplete i fd [] (hkernel hen.1)
    exact .one i o fd [] ho heq (.inl rfl)
  | recvDone i data =>
    obtain ⟨⟨o', ho', -, hsocket⟩, -⟩ := hen
    obtain ⟨k, hk⟩ := Option.ne_none_iff_exists'.mp (hsocket (.inl rfl))
    have hbind : (s.ops[i]?).bind Op.socket = some k := by
      rw [Option.mem_def.mp ho', Option.bind_some, hk]
    obtain ⟨o, ho, heq⟩ := hcomplete i data.length data (by rw [Option.mem_def.mp ho']; simp)
    refine .one i o data.length data ho ?_ (.inr ⟨rfl, rfl⟩)
    simp only [effect, hbind]
    exact heq
  | sendDone i n =>
    obtain ⟨o, ho, heq⟩ := hcomplete i n [] (hkernel hen.1)
    exact .one i o n [] ho heq (.inl rfl)
  | notifyDone i =>
    obtain ⟨o, ho, heq⟩ := hcomplete i 8 [] (hkernel hen.1)
    exact .one i o 8 [] ho heq (.inl rfl)
  | opFail i result =>
    obtain ⟨o, ho, heq⟩ := hcomplete i result [] hen.1
    exact .one i o result [] ho heq (.inl rfl)
  | workerDone i responseStr =>
    refine .nothing ?_
    simp only [effect, workerDone]
    cases s.tasks[i]? <;> exact hcq
  | _ => exact .nothing hcq

lemma behind_effect {a : Action} (ha : a ≠ .handle) (hcq : s.cq = []) :
    (s.behind cq).effect D a = (s.effect D a).behind (cq ++ (s.effect D a).cq) := by
  have hcomplete : ∀ i result data, (s.behind cq).complete i result data =
      (s.complete i result data).behind (cq ++ (s.complete i result data).cq) := by
    intro i result data
    simp only [complete, show (s.behind cq).ops = s.ops from rfl]
    cases s.ops[i]? with
    | none =>
      simp only [hcq, List.append_nil]
    | some o =>
      simp only [hcq, List.nil_append]
      rfl
  have hkept : ∀ {t : Reactor}, t.cq = [] → t.behind cq = t.behind (cq ++ t.cq) := by
    intro t ht
    rw [ht, List.append_nil]
  cases a with
  | handle => exact absurd rfl ha
  | wake =>
    refine Eq.trans ?_ (hkept (quiet_retryDeferred.cq.trans hcq))
    simp only [effect, retryDeferred, show (s.behind cq).acceptPending = s.acceptPending from rfl,
      behind_submitAccept]
    have hnotify : ∀ u : Reactor, (if (u.behind cq).notifyPending then
        ((u.behind cq).submitNotifyRead.map (fun t => { t with notifyPending := false })).getD
        (u.behind cq)
        else u.behind cq) = (if u.notifyPending then
          (u.submitNotifyRead.map (fun t => { t with notifyPending := false })).getD u
            else u).behind cq := by
      intro u
      rw [behind_submitNotifyRead, show (u.behind cq).notifyPending = u.notifyPending from rfl]
      split_ifs
      · cases u.submitNotifyRead <;> rfl
      · rfl
    have haccept : (if s.acceptPending then
        ((s.submitAccept.map (fun t => t.behind cq)).map (fun t => { t with
          acceptPending := false })).getD (s.behind cq)
        else s.behind cq) = (if s.acceptPending then
          (s.submitAccept.map (fun t => { t with acceptPending := false })).getD s
            else s).behind cq := by
      split_ifs
      · cases s.submitAccept <;> rfl
      · rfl
    rw [haccept, hnotify]
    rfl
  | acceptDone i fd =>
    simp only [effect, hcomplete]
    rfl
  | recvDone i data =>
    simp only [effect, show (s.behind cq).ops = s.ops from rfl]
    cases (s.ops[i]?).bind Op.socket with
    | none => exact hkept hcq
    | some k =>
      simp only [hcomplete]
      rfl
  | sendDone i n => exact hcomplete i n []
  | notifyDone i =>
    simp only [effect, hcomplete]
    rfl
  | opFail i result => exact hcomplete i result []
  | workerDone i responseStr =>
    simp only [effect, workerDone, show (s.behind cq).tasks = s.tasks from rfl]
    cases s.tasks[i]? with
    | none => exact hkept hcq
    | some task =>
      simp only [hcq, List.append_nil]
      rfl
  | enter n => exact hkept (t := s.handOver n) hcq
  | interrupted | loop => exact hkept (t := { s with pc := .entering }) hcq
  | eventfdWrite => exact hkept (t := s.effect D .eventfdWrite) hcq

lemma allConns_grow {a : Action} (hs : s.view.Sound) (h : s.step D a = some t) :
    s.mgr.allConns ≤ t.mgr.allConns := by
  obtain ⟨hen, rfl⟩ := step_cases h
  by_cases hhandle : a = .handle
  · subst hhandle
    cases hcq : s.cq with
    | nil => exact absurd hcq hen.2
    | cons e rest =>
      simp only [effect, hcq]
      cases starts_handleCqe (D := D) hs hcq with
      | accepted _ _ hquiet =>
        rw [hquiet.allConns, acquire_allConns]
        show s.mgr.allConns ≤ s.mgr.idle.2.allConns
        cases hpool : s.mgr.idlePool with
        | nil => rw [ConnectionManager.idle_of_nil hpool]; exact Nat.le_succ _
        | cons p pool => rw [ConnectionManager.idle_of_cons hpool]
      | plain _ hquiet => exact hquiet.allConns.ge
      | copied p _ hquiet =>
        exact (hquiet.allConns.trans (copyOut_rest (s := { s with cq := rest }) e).2.2).ge
  by_cases hwake : a = .wake
  · subst hwake
    exact quiet_retryDeferred.allConns.ge
  · rw [(effect_mgr (D := D) (s := s) hwake hhandle).1]

end behind

end Reactor

/-- The loop without its completions, the raw completions, and the buffers that it shares with
the kernel. -/
structure Machine where
  loop : Reactor
  cqes : List RawCqe := []
  bufRing : SlotRing ℕ
  buffers : ℕ → Bytes

def setupBufRing : SlotRing ℕ :=
  ((List.range kBufRingEntries).foldl
    (fun (r : SlotRing ℕ) i => r.add i (SlotRing.mask kBufRingEntries) i)
    ⟨fun _ => 0, 0, 0⟩).advance kBufRingEntries

namespace Machine

variable (D : Decoding) (addr : ℕ → UInt64) (m m' : Machine)

def pointer (ctx : Option ℕ) : UInt64 := (ctx.map addr).getD 0

def context (n : ℕ) (ptr : UInt64) : Option (Option ℕ) :=
  if ptr = 0 then some none else ((List.range n).find? (fun p => addr p = ptr)).map some

def bytes (op : OpType) (e : RawCqe) : Bytes :=
  match selected e.flags with
  | none => []
  | some bid => if op = .recv ∧ 0 < e.res then (m.buffers bid).take e.res.toNat else []

/-- What the loop makes of a completion: none for one of a coroutine, of no known kind, or with
a pointer to no context. -/
def decode (e : RawCqe) : Option Cqe :=
  if isCoroUserData e.userData then none
  else (unpackOp e.userData).bind (fun op =>
    (context addr m.loop.mgr.allConns (unpackCtx e.userData)).map
    (fun ctx => ⟨op, ctx, e.res, m.bytes op e⟩))

def giveBack (op : OpType) (flags : UInt32) : SlotRing ℕ :=
  match selected flags with
  | none => m.bufRing
  | some bid =>
    if op = .recv then (m.bufRing.add bid (SlotRing.mask kBufRingEntries) 0).advance 1
    else m.bufRing

def turn (e : RawCqe) (rest : List RawCqe) : Machine :=
  match m.decode addr e with
  | none => { m with loop := { m.loop with faulted := true }, cqes := rest }
  | some c =>
    { m with loop := (m.loop.handleCqe D c).behind [], cqes := rest,
             bufRing := m.giveBack c.op e.flags }

def post (a : Reactor.Action) (flags : UInt32) : Machine :=
  { m with
    loop := (m.loop.effect D a).behind []
    cqes := m.cqes ++ ((m.loop.effect D a).cq).map
      (fun c => ⟨packUserData (pointer addr c.ctx) c.op, c.result, flags⟩) }

/-- A step of the event loop or the kernel; a receive that fails may still come with a buffer. -/
abbrev Action := Reactor.Action × Bool

/-- What the kernel writes into the buffer that it selects for an operation. -/
def written : Action → Option (ℕ × Bytes)
  | (.recvDone i data, _) => some (i, data)
  | (.opFail i _, true) => some (i, [])
  | _ => none

def posted (act : Action) : Option Machine :=
  match written act with
  | none => some (m.post D addr act.1 0)
  | some (i, data) =>
    if (m.loop.ops[i]?).map (fun o => o.sqe.op) = some .recv then
      (m.bufRing.take (SlotRing.mask kBufRingEntries)).map (fun taken =>
        { m.post D addr act.1 (bufferFlags taken.1) with
          bufRing := taken.2
          buffers :=
            Function.update m.buffers taken.1 (data ++ (m.buffers taken.1).drop data.length) })
    else none

def step (act : Action) : Option Machine :=
  match act.1 with
  | .handle =>
    match m.cqes with
    | [] => none
    | e :: rest => if m.loop.pc = .draining then some (m.turn D addr e rest) else none
  | .loop => if m.loop.pc = .draining ∧
      m.cqes = [] then some { m with loop := { m.loop with pc := .entering } } else none
  | a => if m.loop.Enabled a then m.posted D addr act else none

/-- `m_bufBase` is not initialised. -/
def start (memory : ℕ → Bytes) : Machine := ⟨Reactor.listening, [], setupBufRing, memory⟩

/-- The contexts are at addresses of the lower half, each at one of its own. -/
def Placed (m : Machine) (_ : Action) : Prop :=
  ∀ p < m.loop.mgr.allConns, addr p ≠ 0 ∧ (addr p).toNat < 2 ^ 48 ∧ ∀ q < p, addr q ≠ addr p

instance (m : Machine) (act : Action) : Decidable (Placed addr m act) :=
  inferInstanceAs (Decidable (∀ p < _, _ ∧ _ ∧ _))

def reactor : Reactor := m.loop.behind (m.cqes.filterMap (m.decode addr))

def lent : List ℕ := m.cqes.filterMap (fun e => selected e.flags)

structure Pooled : Prop where
  alone : m.loop.cq = []
  decoded : ∀ e ∈ m.cqes, ∃ c, m.decode addr e = some c ∧ (selected e.flags ≠ none → c.op = .recv)
  pool : ∃ free, m.bufRing.Holds 10 free ∧ (free ++ m.lent).Perm (List.range kBufRingEntries)

variable {D addr m m'}

lemma context_of_lt {n p : ℕ} (hp : p < n) (hne : addr p ≠ 0) (hsole : ∀ q < p, addr q ≠ addr p) :
    context addr n (addr p) = some (some p) := by
  have hfind : (List.range n).find? (fun q => addr q = addr p) = some p := by
    rw [List.find?_range_eq_some]
    exact ⟨by simp, List.mem_range.mpr hp, fun q hq => by simpa using hsole q hq⟩
  rw [context, if_neg hne, hfind, Option.map_some]

lemma context_mono {n n' : ℕ} {ptr : UInt64} {ctx : Option ℕ} (hle : n ≤ n')
    (h : context addr n ptr = some ctx) :
    context addr n' ptr = some ctx := by
  simp only [context] at h ⊢
  split_ifs at h ⊢ with hptr
  · exact h
  · obtain ⟨p, hp, rfl⟩ := Option.map_eq_some_iff.mp h
    rw [List.find?_range_eq_some] at hp
    obtain ⟨heq, hmem, hsole⟩ := hp
    have hfind : (List.range n').find? (fun q => addr q = ptr) = some p := by
      rw [List.find?_range_eq_some]
      exact ⟨heq, List.mem_range.mpr ((List.mem_range.mp hmem).trans_le hle), hsole⟩
    rw [hfind, Option.map_some]

lemma decode_kept {e : RawCqe} {c : Cqe} (hle : m.loop.mgr.allConns ≤ m'.loop.mgr.allConns)
    (hbuf : ∀ bid, selected e.flags = some bid → m'.buffers bid = m.buffers bid)
    (h : m.decode addr e = some c) :
    m'.decode addr e = some c := by
  simp only [decode] at h ⊢
  split_ifs at h ⊢ with hcoro
  obtain ⟨op, hop, h⟩ := Option.bind_eq_some_iff.mp h
  obtain ⟨ctx, hctx, rfl⟩ := Option.map_eq_some_iff.mp h
  have hbytes : m'.bytes op e = m.bytes op e := by
    unfold bytes
    cases hbid : selected e.flags with
    | none => rfl
    | some bid => simp only [hbuf bid hbid]
  rw [hop, Option.bind_some, context_mono hle hctx, Option.map_some, hbytes]

lemma decode_packed {act : Action} (hplaced : Placed addr m act) {n : ℕ}
    (hn : n = m.loop.mgr.allConns)
    (hle : n ≤ m'.loop.mgr.allConns) (op : OpType) {ctx : Option ℕ} (hctx : ∀ p ∈ ctx, p < n)
    (res : ℤ) (flags : UInt32) :
    m'.decode addr ⟨packUserData (pointer addr ctx) op, res, flags⟩ =
      some ⟨op, ctx, res, m'.bytes op ⟨packUserData (pointer addr ctx) op, res, flags⟩⟩ := by
  subst hn
  have hpointer : (pointer addr ctx).toNat < 2 ^ 48 ∧
      context addr m.loop.mgr.allConns (pointer addr ctx) = some ctx := by
    cases ctx with
    | none => exact ⟨by simp [pointer], rfl⟩
    | some p =>
      have hp := hctx p rfl
      obtain ⟨hne, hlt, hsole⟩ := hplaced p hp
      exact ⟨hlt, context_of_lt hp hne hsole⟩
  obtain ⟨hlt, hcontext⟩ := hpointer
  obtain ⟨hunpack, hop⟩ := unpack_packUserData op hlt
  simp only [decode, packUserData_not_coro hlt, hunpack, hop, Bool.false_eq_true, ↓reduceIte,
    Option.bind_some,
    context_mono hle hcontext, Option.map_some]

lemma filterMap_decode {es : List RawCqe} (h : ∀ e ∈ es, m'.decode addr e = m.decode addr e) :
    es.filterMap (m'.decode addr) = es.filterMap (m.decode addr) := List.filterMap_congr h

lemma lent_apart {free : List ℕ} (hperm : (free ++ m.lent).Perm (List.range kBufRingEntries)) :
    ∀ bid ∈ free, bid < kBufRingEntries ∧ bid ∉ m.lent := by
  intro bid hbid
  refine ⟨List.mem_range.mp (hperm.subset (List.mem_append_left _ hbid)), fun hlent => ?_⟩
  have hnodup := hperm.nodup_iff.mpr List.nodup_range
  exact (List.disjoint_of_nodup_append hnodup) hbid hlent

lemma Pooled.turn {e : RawCqe} {rest : List RawCqe} {c : Cqe} (h : m.Pooled addr)
    (hcqes : m.cqes = e :: rest)
    (hc : m.decode addr e = some c) (hop : selected e.flags ≠ none → c.op = .recv)
    (hgrow : m.loop.mgr.allConns ≤ (m.loop.handleCqe D c).mgr.allConns) :
    (m.turn D addr e rest).Pooled addr ∧
      (m.turn D addr e rest).reactor addr = (m.loop.handleCqe D c).behind
      (rest.filterMap (m.decode addr)) := by
  have hturn : m.turn D addr e rest =
      { m with loop := (m.loop.handleCqe D c).behind [], cqes := rest,
               bufRing := m.giveBack c.op e.flags } := by
    simp only [Machine.turn, hc]
  have hkept : ∀ e' ∈ rest, (m.turn D addr e rest).decode addr e' = m.decode addr e' := by
    intro e' he'
    obtain ⟨c', hc', -⟩ := h.decoded e' (by rw [hcqes]; exact List.mem_cons_of_mem _ he')
    rw [hc', hturn]
    exact decode_kept hgrow (fun _ _ => rfl) hc'
  have hrest : (m.turn D addr e rest).cqes = rest := by rw [hturn]
  refine ⟨⟨by rw [hturn]; rfl, fun e' he' => ?_, ?_⟩, ?_⟩
  · rw [hrest] at he'
    rw [hkept e' he']
    exact h.decoded e' (by rw [hcqes]; exact List.mem_cons_of_mem _ he')
  · obtain ⟨free, hring, hperm⟩ := h.pool
    rw [hturn]
    simp only [giveBack, lent]
    rw [lent, hcqes] at hperm
    cases hbid : selected e.flags with
    | none =>
      simp only [List.filterMap_cons, hbid] at hperm
      exact ⟨free, hring, hperm⟩
    | some bid =>
      simp only [List.filterMap_cons, hbid] at hperm
      simp only [hop (by simp [hbid]), ↓reduceIte]
      have hlen := hperm.length_eq
      simp only [List.length_append, List.length_cons, List.length_range] at hlen
      refine ⟨free ++ [bid], hring.put (k := 10) (by norm_num) ?_, ?_⟩
      · rw [kBufRingEntries] at hlen
        omega
      · rw [List.append_assoc]
        exact hperm
  · rw [reactor, hrest, filterMap_decode hkept, hturn]
    rfl

lemma Pooled.plain {act : Action} (h : m.Pooled addr) (hplaced : Placed addr m act)
    (hwritten : written act = none)
    (hposts : m.loop.Posts D act.1)
    (hops : ∀ o ∈ m.loop.ops, ∀ p ∈ o.sqe.ctx, p < m.loop.mgr.allConns)
    (hgrow : m.loop.mgr.allConns ≤ (m.loop.effect D act.1).mgr.allConns) :
    (m.post D addr act.1 0).Pooled addr ∧ (m.post D addr act.1 0).reactor addr =
      (m.loop.effect D act.1).behind
      (m.cqes.filterMap (m.decode addr) ++ (m.loop.effect D act.1).cq) := by
  have hkept : ∀ e ∈ m.cqes, (m.post D addr act.1 0).decode addr e = m.decode addr e := by
    intro e he
    obtain ⟨c, hc, -⟩ := h.decoded e he
    rw [hc]
    exact decode_kept hgrow (fun _ _ => rfl) hc
  cases hposts with
  | nothing hcq =>
    have hcqes : (m.post D addr act.1 0).cqes = m.cqes := by
      simp only [post, hcq, List.map_nil, List.append_nil]
    refine ⟨⟨rfl, fun e he => ?_, ?_⟩, ?_⟩
    · rw [hcqes] at he
      rw [hkept e he]
      exact h.decoded e he
    · rw [lent, hcqes]
      exact h.pool
    · rw [reactor, hcqes, filterMap_decode hkept, hcq, List.append_nil]
      rfl
  | one i o result data hi hcq hdata =>
    have hnone : data = [] := by
      rcases hdata with hnone | ⟨hact, -⟩
      · exact hnone
      · obtain ⟨a, picked⟩ := act
        simp only at hact
        subst hact
        simp [written] at hwritten
    have hcqes : (m.post D addr act.1 0).cqes = m.cqes ++
        [⟨packUserData (pointer addr o.sqe.ctx) o.sqe.op, result, 0⟩] := by
      simp only [post, hcq, List.map_cons, List.map_nil]
    have hlast :
        (m.post D addr act.1 0).decode addr ⟨packUserData (pointer addr o.sqe.ctx) o.sqe.op, result,
          0⟩ = some _ :=
      decode_packed hplaced rfl hgrow o.sqe.op (hops o (List.mem_of_getElem? hi)) result 0
    refine ⟨⟨rfl, fun e he => ?_, ?_⟩, ?_⟩
    · rw [hcqes] at he
      rcases List.mem_append.mp he with hold | hnew
      · rw [hkept e hold]
        exact h.decoded e hold
      · cases List.mem_singleton.mp hnew
        exact ⟨_, hlast, fun hne => absurd selected_zero hne⟩
    · rw [lent, hcqes, List.filterMap_append]
      simp only [List.filterMap_cons, selected_zero, List.filterMap_nil, List.append_nil]
      exact h.pool
    · rw [reactor, hcqes, List.filterMap_append, filterMap_decode hkept, hcq, hnone]
      simp only [List.filterMap_cons, hlast, List.filterMap_nil, bytes, selected_zero]
      rfl

lemma Pooled.picked {act : Action} {i : ℕ} {data : Bytes} {taken : ℕ × SlotRing ℕ}
    (h : m.Pooled addr) (hplaced : Placed addr m act)
    (hwritten : written act = some (i, data))
    (hrecv : (m.loop.ops[i]?).map (fun o => o.sqe.op) = some .recv)
    (htake : m.bufRing.take (SlotRing.mask kBufRingEntries) = some taken)
    (hen : m.loop.Enabled act.1)
    (hops : ∀ o ∈ m.loop.ops, ∀ p ∈ o.sqe.ctx, p < m.loop.mgr.allConns)
    (hgrow : m.loop.mgr.allConns ≤ (m.loop.effect D act.1).mgr.allConns)
    (hm' : m' = { m.post D addr act.1 (bufferFlags taken.1) with
      bufRing := taken.2
      buffers :=
        Function.update m.buffers taken.1 (data ++ (m.buffers taken.1).drop data.length) }) :
    m'.Pooled addr ∧ m'.reactor addr =
      (m.loop.effect D act.1).behind
      (m.cqes.filterMap (m.decode addr) ++ (m.loop.effect D act.1).cq) := by
  obtain ⟨free, hring, hperm⟩ := h.pool
  obtain ⟨bid, rest, rfl⟩ : ∃ bid rest, free = bid :: rest := by
    cases free with
    | nil =>
      rw [show kBufRingEntries = 2 ^ 10 from rfl, hring.take_nil] at htake
      cases htake
    | cons bid rest => exact ⟨bid, rest, rfl⟩
  obtain ⟨ring, htake', hring'⟩ := hring.take_cons (by norm_num)
  rw [show kBufRingEntries = 2 ^ 10 from rfl, htake'] at htake
  cases Option.some.inj htake
  obtain ⟨hbound, happart⟩ := lent_apart hperm bid (by simp)
  have hselected : selected (bufferFlags bid) = some bid :=
    selected_bufferFlags (hbound.trans (by decide))
  have hgrow' : m.loop.mgr.allConns ≤ m'.loop.mgr.allConns := by
    rw [hm']
    exact hgrow
  have hkept : ∀ e ∈ m.cqes, m'.decode addr e = m.decode addr e := by
    intro e he
    obtain ⟨c, hc, -⟩ := h.decoded e he
    rw [hc]
    refine decode_kept hgrow' (fun bid' hbid' => ?_) hc
    have hne : bid' ≠ bid := by
      rintro rfl
      exact happart (List.mem_filterMap.mpr ⟨e, he, hbid'⟩)
    rw [hm']
    exact Function.update_of_ne hne _ _
  -- the receive has ended with the data, or failed with none
  obtain ⟨o, ho, hop⟩ := Option.map_eq_some_iff.mp hrecv
  obtain ⟨result, hcq, hresult⟩ :
      ∃ result, (m.loop.effect D act.1).cq = [⟨.recv, o.sqe.ctx, result, data⟩] ∧
      (result = data.length ∨ result ≤ 0 ∧ data = []) := by
    obtain ⟨a, picked⟩ := act
    cases a with
    | recvDone j data' =>
      cases Option.some.inj hwritten
      obtain ⟨⟨o', ho', -, hsocket⟩, -⟩ := hen
      obtain ⟨k, hk⟩ := Option.ne_none_iff_exists'.mp (hsocket (.inl rfl))
      have hbind : (m.loop.ops[i]?).bind Op.socket = some k := by
        rw [Option.mem_def.mp ho', Option.bind_some, hk]
      refine ⟨data.length, ?_, .inl rfl⟩
      simp only [Reactor.effect, hbind, Reactor.complete_eq ho, h.alone, hop, List.nil_append]
    | opFail j result =>
      cases picked with
      | false => cases hwritten
      | true =>
        cases Option.some.inj hwritten
        refine ⟨result, ?_, .inr ⟨hen.2.1, rfl⟩⟩
        simp only [Reactor.effect, Reactor.complete_eq ho, h.alone, hop, List.nil_append]
    | _ => cases hwritten
  have hcqes : m'.cqes = m.cqes ++
      [⟨packUserData (pointer addr o.sqe.ctx) .recv, result, bufferFlags bid⟩] := by
    rw [hm']
    simp only [post, hcq, List.map_cons, List.map_nil]
  have hlast :
      m'.decode addr ⟨packUserData (pointer addr o.sqe.ctx) .recv, result, bufferFlags bid⟩ =
        some _ :=
    decode_packed hplaced rfl hgrow' .recv (hops o (List.mem_of_getElem? ho)) result
      (bufferFlags bid)
  have hbytes :
      m'.bytes .recv ⟨packUserData (pointer addr o.sqe.ctx) .recv, result, bufferFlags bid⟩ =
        data := by
    simp only [bytes, hselected, true_and]
    rcases hresult with hlen | ⟨hle, hnone⟩
    · split_ifs with hpos
      · rw [hm', hlen, Int.toNat_natCast]
        simp
      · have hzero : data.length = 0 := by omega
        exact (List.length_eq_zero_iff.mp hzero).symm
    · rw [if_neg (not_lt.mpr hle), hnone]
  refine ⟨⟨by rw [hm']; rfl, fun e he => ?_, ?_⟩, ?_⟩
  · rw [hcqes] at he
    rcases List.mem_append.mp he with hold | hnew
    · rw [hkept e hold]
      exact h.decoded e hold
    · cases List.mem_singleton.mp hnew
      exact ⟨_, hlast, fun _ => rfl⟩
  · refine ⟨rest, by rw [hm']; exact hring', ?_⟩
    rw [lent, hcqes, List.filterMap_append]
    simp only [List.filterMap_cons, hselected, List.filterMap_nil]
    refine List.Perm.trans ?_ hperm
    rw [← List.append_assoc, List.cons_append]
    exact List.perm_append_singleton bid (rest ++ m.lent)
  · rw [reactor, hcqes, List.filterMap_append, filterMap_decode hkept, hcq]
    simp only [List.filterMap_cons, hlast, hbytes, List.filterMap_nil]
    rw [hm']
    rfl

lemma Pooled.step {act : Action} (h : m.Pooled addr) (hs : (m.reactor addr).view.Sound)
    (hplaced : Placed addr m act)
    (hstep : m.step D addr act = some m') : m'.Pooled addr ∧
    (m.reactor addr).step D act.1 = some (m'.reactor addr) := by
  have hgrow : ∀ {t : Reactor}, (m.reactor addr).step D act.1 = some t →
      m.loop.mgr.allConns ≤ t.mgr.allConns := by
    intro t ht
    have hle := Reactor.allConns_grow hs ht
    exact hle
  by_cases hhandle : act.1 = .handle
  · simp only [Machine.step, hhandle] at hstep
    cases hcqes : m.cqes with
    | nil => simp [hcqes] at hstep
    | cons e rest =>
      simp only [hcqes, Option.ite_none_right_eq_some, Option.some.injEq] at hstep
      obtain ⟨hpc, rfl⟩ := hstep
      obtain ⟨c, hc, hop⟩ := h.decoded e (by simp [hcqes])
      have hreactor : m.reactor addr = m.loop.behind (c :: rest.filterMap (m.decode addr)) := by
        rw [reactor, hcqes, List.filterMap_cons_some hc]
      have habstract : (m.reactor addr).step D act.1 =
          some ((m.loop.handleCqe D c).behind (rest.filterMap (m.decode addr))) := by
        have hen : (m.reactor addr).Enabled .handle := ⟨hpc, by simp [hreactor]⟩
        rw [hhandle, Reactor.step, if_pos hen, hreactor, ← Reactor.behind_handleCqe]
        rfl
      have hle := hgrow habstract
      obtain ⟨hpooled, hnext⟩ := h.turn (D := D) hcqes hc hop hle
      exact ⟨hpooled, by rw [hnext, habstract]⟩
  by_cases hloop : act.1 = .loop
  · simp only [Machine.step, hloop, Option.ite_none_right_eq_some, Option.some.injEq] at hstep
    obtain ⟨⟨hpc, hnone⟩, rfl⟩ := hstep
    refine ⟨⟨h.alone, h.decoded, h.pool⟩, ?_⟩
    have hen : (m.reactor addr).Enabled .loop := ⟨hpc, by rw [reactor, hnone]; rfl⟩
    rw [hloop, Reactor.step, if_pos hen]
    rfl
  have hposted : m.loop.Enabled act.1 ∧ m.posted D addr act = some m' := by
    obtain ⟨a, picked⟩ := act
    cases a <;> first
      | exact absurd rfl hhandle
      | exact absurd rfl hloop
      | simpa only [Machine.step, Option.ite_none_right_eq_some] using hstep
  obtain ⟨hen, hposted⟩ := hposted
  have hen' : (m.reactor addr).Enabled act.1 := by
    obtain ⟨a, picked⟩ := act
    cases a <;> first
      | exact absurd rfl hhandle
      | exact absurd rfl hloop
      | exact hen
  have habstract : (m.reactor addr).step D act.1 = some ((m.loop.effect D act.1).behind
      (m.cqes.filterMap (m.decode addr) ++ (m.loop.effect D act.1).cq)) := by
    rw [Reactor.step, if_pos hen', reactor, Reactor.behind_effect _ hhandle h.alone]
  have hops : ∀ o ∈ m.loop.ops, ∀ p ∈ o.sqe.ctx, p < m.loop.mgr.allConns := by
    intro o ho p hp
    have htag := Reactor.op_tag (s := m.reactor addr) ho
    rw [Option.mem_def.mp hp] at htag
    exact (Reactor.tag_busy hs htag).1
  have hle := hgrow habstract
  rw [habstract]
  have hposts := Reactor.effect_posts (D := D) hhandle h.alone hen
  unfold posted at hposted
  cases hwritten : written act with
  | none =>
    simp only [hwritten, Option.some.injEq] at hposted
    subst hposted
    obtain ⟨hpooled, hnext⟩ := h.plain hplaced hwritten hposts hops hle
    exact ⟨hpooled, by rw [hnext]⟩
  | some w =>
    obtain ⟨i, data⟩ := w
    simp only [hwritten, Option.ite_none_right_eq_some] at hposted
    obtain ⟨hrecv, hposted⟩ := hposted
    obtain ⟨taken, htake, hm'⟩ := Option.map_eq_some_iff.mp hposted
    obtain ⟨hpooled, hnext⟩ := h.picked hplaced hwritten hrecv htake hen hops hle hm'.symm
    exact ⟨hpooled, by rw [hnext]⟩

lemma pooled_start (addr : ℕ → UInt64) (memory : ℕ → Bytes) : (start memory).Pooled addr where
  alone := rfl
  decoded := nofun
  pool := by
    have hempty : (⟨fun _ => 0, 0, 0⟩ : SlotRing ℕ).Stands 10 0 [] [] :=
      ⟨rfl, rfl, by norm_num, by simp⟩
    have hfilled :=
      (hempty.fill (by norm_num) (n := kBufRingEntries) (by simp [kBufRingEntries]) id).advance
    rw [List.length_map, List.length_range, List.map_id, List.nil_append] at hfilled
    exact ⟨List.range kBufRingEntries, ⟨0, hfilled⟩, by simp [lent, start]⟩

/-- Whatever the kernel writes into its buffers in between, the loop copies out of each buffer
what the completion came with: every run on raw completions is a run on completions with their
bytes. No buffer is lost or handed out twice. -/
theorem completions_read (D : Decoding) (addr : ℕ → UInt64) (memory : ℕ → Bytes)
    {acts : List Action}
    (h : Run (step D addr) (Placed addr) (start memory) acts m) :
    Run (Reactor.step D) Any Reactor.listening (acts.map Prod.fst) (m.reactor addr) ∧
      (m.reactor addr).cq.length = m.cqes.length ∧
      ∃ free, m.bufRing.Holds 10 free ∧ (free ++ m.lent).Perm (List.range kBufRingEntries) := by
  have hrun : Run (Reactor.step D) Any Reactor.listening (acts.map Prod.fst) (m.reactor addr) ∧
      m.Pooled addr := by
    induction h with
    | nil => exact ⟨.nil, pooled_start addr memory⟩
    | snoc _ hplaced hstep ih =>
      obtain ⟨hrun, hpooled⟩ := ih
      obtain ⟨hpooled', hnext⟩ := hpooled.step (Reactor.sound_run hrun) hplaced hstep
      rw [List.map_append]
      exact ⟨.snoc hrun trivial hnext, hpooled'⟩
  obtain ⟨hrun, hpooled⟩ := hrun
  refine ⟨hrun, ?_, hpooled.pool⟩
  have hall : ∀ es : List RawCqe, (∀ e ∈ es, ∃ c, m.decode addr e = some c) →
      (es.filterMap (m.decode addr)).length = es.length := by
    intro es hes
    induction es with
    | nil => rfl
    | cons e es ih =>
      obtain ⟨c, hc⟩ := hes e (by simp)
      rw [List.filterMap_cons_some hc, List.length_cons, List.length_cons,
        ih (fun e' he' => hes e' (by simp [he']))]
  exact hall m.cqes (fun e he => (hpooled.decoded e he).imp (fun _ hc => hc.1))

def sampleActions : List Action := (Reactor.acceptRun.map (fun a => (a, false))) ++
  [(.enter 2, false), (.recvDone 1 [8, 0, 0, 0, 10], false), (.wake, false), (.handle, false),
    (.loop, false),
    (.enter 1, false), (.recvDone 2 [1, 85, 18, 1, 76, 32, 1], false), (.wake, false),
    (.handle, false), (.loop, false),
    (.enter 1, false), (.opFail 2 0, true)]

def sampleAddr (p : ℕ) : UInt64 := UInt64.ofNat (4096 + 128 * p)

theorem completions_read_sample : ∃ m, exec (step Reactor.sampleDecoding sampleAddr)
    (start fun _ => []) sampleActions = some m ∧
    m.lent = [2] ∧ (m.reactor sampleAddr).tasks.length = 1 ∧
      Run (Reactor.step Reactor.sampleDecoding) Any Reactor.listening (sampleActions.map Prod.fst)
        (m.reactor sampleAddr) := by
  obtain ⟨m, hm, hd⟩ : ∃ m, exec (step Reactor.sampleDecoding sampleAddr) (start fun _ => [])
      sampleActions = some m ∧
      decide (m.lent = [2] ∧ (m.reactor sampleAddr).tasks.length = 1) = true :=
        exec_any (by decide +kernel)
  obtain ⟨hlent, htasks⟩ := of_decide_eq_true hd
  have hrun : Run (step Reactor.sampleDecoding sampleAddr) (Placed sampleAddr) (start fun _ => [])
      sampleActions m :=
    .of_exec hm (by decide +kernel)
  exact ⟨m, hm, hlent, htasks,
    (completions_read Reactor.sampleDecoding sampleAddr (fun _ => []) hrun).1⟩

end Machine

end KimRpc.Server
