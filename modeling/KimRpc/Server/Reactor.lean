import KimRpc.Server.ConnectionManager
import KimRpc.Server.Requests
import KimRpc.Library.Runs

/-! The event loop of the io_uring server and what surrounds it: the submission queue,
the operations in the kernel, the completion queue, the open files, and the worker
threads that answer requests. -/

namespace KimRpc.Server

open Library.StreamDecoding Wire

def kMaxInflightPerConn : ℤ := 256
def kBufSize : ℕ := 4096
def kSqEntries : ℕ := 256
def ENOBUFS : ℤ := 105

inductive OpType where
  | accept
  | recv
  | send
  | notify
  deriving DecidableEq, Repr

/-- A queued operation with its bare descriptor and user data; `owner` is the socket of
the context when the operation was prepared. -/
structure Sqe where
  op : OpType
  fd : ℕ
  ctx : Option ℕ
  data : Bytes
  owner : ℕ
  deriving DecidableEq, Repr

/-- An operation in the kernel, on the socket its descriptor named when it was handed over. -/
structure Op where
  sqe : Sqe
  socket : Option ℕ
  deriving DecidableEq, Repr

structure Cqe where
  op : OpType
  ctx : Option ℕ
  result : ℤ
  data : Bytes
  deriving DecidableEq, Repr

structure Task where
  fd : ℕ
  connId : UInt64
  request : Request
  serial : ℕ
  deriving DecidableEq, Repr

structure Coro where
  fd : ℕ
  connId : UInt64
  frame : Bytes
  serial : ℕ
  deriving DecidableEq, Repr

inductive LoopPc where
  | entering
  | waiting
  | draining
  deriving DecidableEq, Repr

/-- Fields after `eventfd` record what happened: bytes taken from each socket, bytes
appended to the input of the context accepted for it, operations handed over. -/
structure Reactor where
  pc : LoopPc := .entering
  mgr : ConnectionManager := {}
  sq : List Sqe := []
  ops : List Op := []
  cq : List Cqe := []
  files : ℕ → Option ℕ := fun _ => none
  accepts : ℕ := 0
  acceptPending : Bool := false
  notifyPending : Bool := false
  tasks : List Task := []
  dispatched : ℕ := 0
  readyCoros : List Coro := []
  unwritten : ℕ := 0
  eventfd : ℕ := 0
  faulted : Bool := false
  acquired : List UInt64 := []
  received : ℕ → Bytes := fun _ => []
  fed : ℕ → Bytes := fun _ => []
  handed : List Op := []

namespace Reactor

variable (D : Decoding) (s : Reactor) (fd p : ℕ)

def find : Option ℕ := s.mgr.find fd

def ctx : ConnectionContext := s.mgr.contexts p

def modify (f : ConnectionContext → ConnectionContext) : Reactor :=
  { s with mgr := s.mgr.modify p f }

/-- `io_uring_get_sqe` and the preparation of the entry; none when the queue is full. -/
def submit (e : Sqe) : Option Reactor :=
  if s.sq.length < kSqEntries then some { s with sq := s.sq ++ [e] } else none

def onSubmit : Reactor := { s with mgr := s.mgr.onSubmit p }

def submitAccept : Option Reactor := s.submit ⟨.accept, 0, none, [], 0⟩

def submitNotifyRead : Option Reactor := s.submit ⟨.notify, 0, none, [], 0⟩

def submitRecv : Option Reactor :=
  match s.find fd with
  | none => none
  | some p => (s.submit ⟨.recv, fd, some p, [], (s.ctx p).socket⟩).map (fun t => t.onSubmit p)

def submitSend : Option Reactor :=
  match s.find fd with
  | none => none
  | some p =>
    match (s.ctx p).outQueue with
    | [] => some (s.modify p (fun ctx => { ctx with sending := false }))
    | front :: _ =>
      (s.submit ⟨.send, fd, some p, front.drop (s.ctx p).written, (s.ctx p).socket⟩).map
        (fun t => (t.onSubmit p).modify p (fun ctx => { ctx with sending := true }))

/-- `ConnectionManager::close`: the descriptor is free for the next accept at once. -/
def close : Reactor :=
  match s.find fd with
  | none => s
  | some p => { s with mgr := s.mgr.close fd, files := Function.update s.files (s.ctx p).fd none }

def orClose (submitted : Option Reactor) : Reactor := submitted.getD (s.close fd)

def acquire : Reactor :=
  { s with mgr := s.mgr.acquire fd ((s.files fd).getD 0), acquired := s.acquired ++ [s.mgr.nextId] }

def retryAccept : Reactor := s.submitAccept.getD { s with acceptPending := true }

def retryNotify : Reactor := s.submitNotifyRead.getD { s with notifyPending := true }

def handleAccept (result : ℤ) : Reactor :=
  if result < 0 then s.retryAccept
  else
    let connfd := result.toNat
    let s' := s.acquire connfd
    (s'.orClose connfd (s'.submitRecv connfd)).retryAccept

def dispatch (requests : List Request) : Reactor :=
  { s.modify p (fun ctx => { ctx with pendingReqs := ctx.pendingReqs + requests.length }) with
    tasks := s.tasks ++
      requests.mapIdx (fun i r => ⟨(s.ctx p).fd, (s.ctx p).connId, r, s.dispatched + i⟩),
    dispatched := s.dispatched + requests.length }

/-- What is left of the input of a closed connection is not read again. -/
def handleRecv (result : ℤ) : Reactor :=
  let fd := (s.ctx p).fd
  if (s.ctx p).closing then s
  else if result ≤ 0 then
    if result = -ENOBUFS then s.orClose fd (s.submitRecv fd) else s.close fd
  else
    let drained := D.uringDecoder.drain (s.ctx p).input
    let s' := s.dispatch p drained.1
    match drained.2 with
    | .stopped => s'.close fd
    | .pending rest =>
      let s'' := s'.modify p (fun ctx => { ctx with input := rest })
      if kMaxInflightPerConn ≤ (s''.ctx p).pendingReqs then
        s''.modify p (fun ctx => { ctx with readPaused := true })
      else s''.orClose fd (s''.submitRecv fd)

def continueSend : Reactor :=
  if (s.ctx p).outQueue = [] then s.modify p (fun ctx => { ctx with sending := false })
  else s.orClose (s.ctx p).fd (s.submitSend (s.ctx p).fd)

/-- The front of the queue is read without a check: with an empty queue the behaviour
is undefined, which `faulted` records. -/
def handleSend (result : ℤ) : Reactor :=
  let fd := (s.ctx p).fd
  if result ≤ 0 then s.close fd
  else
    let written := (s.ctx p).written + result.toNat
    match (s.ctx p).outQueue with
    | [] => { s with faulted := true }
    | front :: rest =>
      if front.length ≤ written then
        let s' := s.modify p (fun ctx =>
          { ctx with outQueue := rest, written := 0, pendingReqs := ctx.pendingReqs - 1 })
        if (s'.ctx p).readPaused = true ∧ (s'.ctx p).pendingReqs < kMaxInflightPerConn then
          let s'' := s'.modify p (fun ctx => { ctx with readPaused := false })
          match s''.submitRecv fd with
          | none => s''.close fd
          | some t => t.continueSend p
        else s'.continueSend p
      else (s.modify p (fun ctx => { ctx with written := written })).continueSend p

/-- A response of a connection that is gone, or whose descriptor was given to another, is dropped.
-/
def deliverResponse (connId : UInt64) (data : Bytes) : Reactor :=
  match s.find fd with
  | none => s
  | some p =>
    if (s.ctx p).connId ≠ connId then s
    else
      let s' := s.modify p (fun ctx => { ctx with outQueue := ctx.outQueue ++ [data] })
      if (s'.ctx p).sending then s' else s'.orClose fd (s'.submitSend fd)

def resume (h : Coro) : Reactor :=
  if h.frame = [] then s else s.deliverResponse h.fd h.connId h.frame

def handleNotify : Reactor := s.readyCoros.foldl resume { s with readyCoros := [] }

/-- The bytes of a receive are copied out before anything else, unless the context is closing. -/
def copyOut (e : Cqe) (p : ℕ) : Reactor :=
  if e.op = .recv ∧ 0 < e.result ∧ (s.ctx p).closing = false then
    { s.modify p (fun ctx => { ctx with input := ctx.input ++ e.data }) with
      fed := Function.update s.fed (s.ctx p).socket (s.fed (s.ctx p).socket ++ e.data) }
  else s

def entered (e : Cqe) (p : ℕ) : Option Reactor :=
  let s' := s.copyOut e p
  if (s'.mgr.onComplete p).1 then none else some { s' with mgr := (s'.mgr.onComplete p).2 }

/-- The switch over the kind of a completion. A receive or send without a context would
be a null dereference. -/
def handler (e : Cqe) : Reactor :=
  match e.op, e.ctx with
  | .accept, _ => s.handleAccept e.result
  | .notify, _ => s.handleNotify.retryNotify
  | .recv, some p => s.handleRecv D p e.result
  | .send, some p => s.handleSend p e.result
  | .recv, none | .send, none => { s with faulted := true }

def handleCqe (e : Cqe) : Reactor :=
  match e.ctx with
  | none => s.handler D e
  | some p =>
    match s.entered e p with
    | none => { s.copyOut e p with mgr := ((s.copyOut e p).mgr.onComplete p).2 }
    | some t => t.handler D e

inductive Action where
  | enter (n : ℕ)
  | interrupted
  | wake
  | handle
  | loop
  | acceptDone (i : ℕ) (fd : ℕ)
  | recvDone (i : ℕ) (data : Bytes)
  | sendDone (i : ℕ) (n : ℕ)
  | notifyDone (i : ℕ)
  | opFail (i : ℕ) (result : ℤ)
  | workerDone (i : ℕ) (responseStr : Option Bytes)
  | eventfdWrite
  deriving DecidableEq

def complete (i : ℕ) (result : ℤ) (data : Bytes) : Reactor :=
  match s.ops[i]? with
  | none => s
  | some o =>
    { s with ops := s.ops.eraseIdx i, cq := s.cq ++ [⟨o.sqe.op, o.sqe.ctx, result, data⟩] }

def InKernel (i : ℕ) (op : OpType) : Prop :=
  ∃ o ∈ s.ops[i]?, o.sqe.op = op ∧ (op = .recv ∨ op = .send → o.socket ≠ none)

instance (i : ℕ) (op : OpType) : Decidable (s.InKernel i op) :=
  inferInstanceAs (Decidable (∃ o ∈ s.ops[i]?, _ ∧ (_ → _)))

def Enabled : Action → Prop
  | .enter _ => s.pc = .entering
  | .interrupted | .wake => s.pc = .waiting
  | .handle => s.pc = .draining ∧ s.cq ≠ []
  | .loop => s.pc = .draining ∧ s.cq = []
  | .acceptDone i fd => s.InKernel i .accept ∧ s.files fd = none
  | .recvDone i data => s.InKernel i .recv ∧ 0 < data.length ∧ data.length ≤ kBufSize
  | .sendDone i n => s.InKernel i .send ∧ 0 < n ∧ ∀ o ∈ s.ops[i]?, n ≤ o.sqe.data.length
  | .notifyDone i => s.InKernel i .notify ∧ 0 < s.eventfd
  | .opFail i result => s.ops[i]? ≠ none ∧ result ≤ 0 ∧ ∀ o ∈ s.ops[i]?, o.sqe.op = .accept →
      result < 0
  | .workerDone i _ => i < s.tasks.length
  | .eventfdWrite => 0 < s.unwritten

instance Enabled.decidable : ∀ a, Decidable (s.Enabled a)
  | .enter _ | .interrupted | .wake => inferInstanceAs (Decidable (_ = _))
  | .handle => inferInstanceAs (Decidable (_ = _ ∧ _ ≠ _))
  | .loop => inferInstanceAs (Decidable (_ = _ ∧ _ = _))
  | .acceptDone _ _ => inferInstanceAs (Decidable (InKernel _ _ _ ∧ _ = _))
  | .recvDone _ _ => inferInstanceAs (Decidable (InKernel _ _ _ ∧ _ < _ ∧ _ ≤ _))
  | .sendDone i n =>
    inferInstanceAs (Decidable (InKernel _ _ _ ∧ _ < _ ∧ ∀ o ∈ s.ops[i]?, n ≤ o.sqe.data.length))
  | .notifyDone _ => inferInstanceAs (Decidable (InKernel _ _ _ ∧ _ < _))
  | .opFail i result =>
    inferInstanceAs (Decidable (_ ≠ _ ∧ _ ≤ _ ∧ ∀ o ∈ s.ops[i]?, o.sqe.op = .accept → result < 0))
  | .workerDone _ _ | .eventfdWrite => inferInstanceAs (Decidable (_ < _))

/-- The kernel takes the first `n` entries of the queue, as a rule all, and resolves each
descriptor. -/
def handOver (n : ℕ) : Reactor :=
  let new := (s.sq.take n).map (fun e => (⟨e, s.files e.fd⟩ : Op))
  { s with pc := .waiting, sq := s.sq.drop n, ops := s.ops ++ new, handed := s.handed ++ new }

def retryDeferred : Reactor :=
  let s' :=
    if s.acceptPending then
      (s.submitAccept.map (fun t => { t with acceptPending := false })).getD s
    else s
  let s'' :=
    if s'.notifyPending
      then (s'.submitNotifyRead.map (fun t => { t with notifyPending := false })).getD s'
    else s'
  { s'' with pc := .draining }

def workerDone (i : ℕ) (responseStr : Option Bytes) : Reactor :=
  match s.tasks[i]? with
  | none => s
  | some task =>
    { s with
      tasks := s.tasks.eraseIdx i, unwritten := s.unwritten + 1,
      readyCoros :=
        s.readyCoros ++ [⟨task.fd, task.connId, onPoolDone task.request.requestId responseStr,
        task.serial⟩] }

def effect : Action → Reactor
  | .enter n => s.handOver n
  | .interrupted => { s with pc := .entering }
  | .wake => s.retryDeferred
  | .handle =>
    match s.cq with
    | [] => s
    | e :: rest => { s with cq := rest }.handleCqe D e
  | .loop => { s with pc := .entering }
  | .acceptDone i fd =>
    { s.complete i fd [] with
      files := Function.update s.files fd (some s.accepts), accepts := s.accepts + 1 }
  | .recvDone i data =>
    match (s.ops[i]?).bind Op.socket with
    | none => s
    | some k => { s.complete i data.length data with
        received := Function.update s.received k (s.received k ++ data) }
  | .sendDone i n => s.complete i n []
  | .notifyDone i => { s.complete i 8 [] with eventfd := 0 }
  | .opFail i result => s.complete i result []
  | .workerDone i responseStr => s.workerDone i responseStr
  | .eventfdWrite => { s with unwritten := s.unwritten - 1, eventfd := s.eventfd + 1 }

def step (a : Action) : Option Reactor := if s.Enabled a then some (s.effect D a) else none

def listening : Reactor := { sq := [⟨.accept, 0, none, [], 0⟩, ⟨.notify, 0, none, [], 0⟩] }

end Reactor

end KimRpc.Server
