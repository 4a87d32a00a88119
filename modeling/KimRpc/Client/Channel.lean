import KimRpc.Client.CallMethod
import KimRpc.Library.Runs
import KimRpc.Library.Tables

/-! The asynchronous client channel as a step function. Callers, the receive
thread, the timer thread and the destructor interleave; a step is one lock
section, one system call or one callback, and `ensureConnected` takes three. -/

namespace KimRpc.Client

open Wire Library.Tables

def kDefaultTimeoutMs : ℤ := 5000

inductive Reason where
  | serializeRequest
  | serializeRpcHeader
  | etcdNotReachable
  | etcdRangeFailed (methodPath : Bytes)
  | noAvailableInstance (methodPath : Bytes)
  | addressInvalid (hostData : String)
  | createSocket (errno : ℕ)
  | connect (errno : ℕ)
  | send (errno : ℕ)
  | parseResponse
  | connectionClosed
  | channelClosed
  | rpcTimeout
  deriving DecidableEq

def Reason.text : Reason → String
  | .serializeRequest => "serialize request error!"
  | .serializeRpcHeader => "serialize rpcHeader error!"
  | .etcdNotReachable => "etcd not reachable"
  | .etcdRangeFailed methodPath => CallEnv.text methodPath ++ " etcd range failed"
  | .noAvailableInstance methodPath => CallEnv.text methodPath ++ " has no available instance"
  | .addressInvalid hostData => hostData ++ " address is invalid"
  | .createSocket errno => "create socket error! errno:" ++ toString errno
  | .connect errno => "connect error! errno:" ++ toString errno
  | .send errno => "send error! errno:" ++ toString errno
  | .parseResponse => "parse response error!"
  | .connectionClosed => "connection closed"
  | .channelClosed => "channel closed"
  | .rpcTimeout => "rpc timeout"

inductive RpcAddress where
  | found (hostData : String)
  | etcdNotReachable
  | etcdRangeFailed
  | noAvailableInstance
  deriving DecidableEq

def getRpcAddress (methodPath : Bytes) : RpcAddress → Except Reason String
  | .found hostData => .ok hostData
  | .etcdNotReachable => .error .etcdNotReachable
  | .etcdRangeFailed => .error (.etcdRangeFailed methodPath)
  | .noAvailableInstance => .error (.noAvailableInstance methodPath)

structure Invocation where
  serviceName : Bytes
  methodName : Bytes
  argsStr : Option Bytes
  address : RpcAddress
  deriving DecidableEq

def Invocation.methodPath (inv : Invocation) :
    Bytes := 47 :: inv.serviceName ++ 47 :: inv.methodName

inductive Thread where
  | caller (call : ℕ)
  | recv
  | timer
  deriving DecidableEq, Repr

inductive CallPc where
  | absent
  | preparing
  | connecting
  | joining
  | opening
  | registering
  | locking
  | sending
  | undoing
  | failing
  | inDone
  | returned
  | sent
  deriving DecidableEq, Repr

structure Call where
  parent : Option ℕ := none
  thread : Thread := .caller 0
  pc : CallPc := .absent
  requestId : UInt64 := 0
  hostData : String := ""
  sendRpcStr : Bytes := []
  written : ℕ := 0
  error : Option Reason := none
  deriving DecidableEq

inductive RecvPc where
  | top
  | reading
  | completing
  | failing
  | draining
  | finished
  deriving DecidableEq, Repr

inductive TimerPc where
  | waiting
  | expiring
  | finished
  deriving DecidableEq, Repr

inductive DestructorPc where
  | alive
  | joiningTimer
  | tearingDown
  | joiningRecv
  | failing
  | draining
  | returned
  deriving DecidableEq, Repr

inductive Taker where
  | callAsync
  | recvLoop
  | timerLoop
  | failAllPending
  deriving DecidableEq, Repr

inductive Worker where
  | recv
  | timer
  | destructor
  deriving DecidableEq, Repr

structure Batch where
  taker : Taker := .recvLoop
  failed : Option Reason := none
  todo : PendingMap := ∅
  running : Option Pending := none

def Batch.Done (b : Batch) : Prop := b.todo.entries = [] ∧ b.running = none

instance (b : Batch) : Decidable b.Done := inferInstanceAs (Decidable (_ ∧ _))

inductive Event where
  | registered (call : ℕ) (deadline : Option ℕ)
  | arrived (id : UInt64) (body : Bytes)
  | took (taker : Taker) (call : ℕ)
  | done (taker : Taker) (call : ℕ) (failed : Option Reason) (time : ℕ)
  | freed (taker : Taker) (call : ℕ)
  deriving DecidableEq

/-- A connection the channel opened, with the pieces written to it and their calls. -/
structure Link where
  hostData : String
  wire : List (ℕ × Bytes)
  deriving DecidableEq

structure Channel where
  clientfd : Option ℕ := none
  connectedHost : String := ""
  running : Bool := false
  recvThread : Option RecvPc := none
  reading : Reading := .size []
  connMtx : Option ℕ := none
  sendMtx : Option ℕ := none
  pending : PendingMap := ∅
  nextId : UInt64 := 1
  timeoutMs : ℤ := kDefaultTimeoutMs
  timerRunning : Bool := true
  timer : TimerPc := .waiting
  destructor : DestructorPc := .alive
  batches : Worker → Batch := fun _ => {}
  calls : ℕ → Call := fun _ => {}
  started : ℕ := 0
  links : List Link := []
  now : ℕ := 0
  crashed : Bool := false
  log : List Event := []

inductive Opening where
  | socketError (errno : ℕ)
  | connectError (errno : ℕ)
  | connected
  deriving DecidableEq, Repr

inductive Action where
  | start (parent : Option ℕ)
  | prepare (call : ℕ) (inv : Invocation)
  | connect (call : ℕ)
  | join (call : ℕ)
  | openConnection (call : ℕ) (result : Opening)
  | register (call : ℕ)
  | lockSend (call : ℕ)
  | send (call : ℕ) (ret : ℕ)
  | sendFail (call : ℕ) (errno : ℕ)
  | undo (call : ℕ)
  | fail (call : ℕ)
  | return (call : ℕ)
  | recvTop
  | recv (piece : Bytes)
  | recvFail
  | recvTake (id : UInt64) (body : Bytes)
  | recvNext
  | recvFailAll
  | recvFinish
  | tick
  | timerNext
  | timerExit
  | runDone (worker : Worker) (id : UInt64)
  | free (worker : Worker)
  | destroy
  | joinTimer
  | teardown
  | joinRecv
  | closeAll
  | destroyed
  | clock (ms : ℕ)
  | setTimeoutMs (ms : ℤ)
  deriving DecidableEq

structure ChannelEnv where
  codec : HeaderCodec
  parses : ℕ → Bytes → Bool

def Pending.expired (now : ℕ) (pend : Pending) :
    Bool := pend.deadline.any (fun deadline => deadline ≤ now)

namespace Channel

variable (env : ChannelEnv) (s : Channel) (c : ℕ)

def setCall (call : Call) : Channel := { s with calls := Function.update s.calls c call }

def goto (pc : CallPc) : Channel := s.setCall c { s.calls c with pc := pc }

def setBatch (w : Worker) (b : Batch) : Channel :=
  { s with batches := Function.update s.batches w b }

def record (events : List Event) : Channel := { s with log := s.log ++ events }

def Returned : Prop := (s.calls c).pc = .returned ∨ (s.calls c).pc = .sent

instance : Decidable (s.Returned c) := inferInstanceAs (Decidable (_ ∨ _))

def doneThread : Option Thread :=
  if (s.calls c).pc = .inDone then some (s.calls c).thread
  else if (s.batches .recv).running.map Pending.call = some c then some .recv
  else if (s.batches .timer).running.map Pending.call = some c then some .timer
  else none

def childrenReturned : Prop := ∀ d < s.started, (s.calls d).parent = some c → s.Returned d

instance : Decidable (s.childrenReturned c) := inferInstanceAs (Decidable (∀ d < s.started, _ → _))

def start (parent : Option ℕ) : Channel :=
  let thread := (parent.bind s.doneThread).getD (.caller s.started)
  { s.setCall s.started { parent := parent, thread := thread, pc := .preparing } with
    started := s.started + 1 }

def failWith (reason : Reason) : Channel :=
  s.setCall c { s.calls c with pc := .failing, error := some reason }

def allocate : Channel :=
  { s.setCall c { s.calls c with requestId := s.nextId } with nextId := s.nextId + 1 }

/-- `callAsync` up to the look-up of the address. -/
def prepare (inv : Invocation) : Channel :=
  match inv.argsStr with
  | none => s.failWith c .serializeRequest
  | some argsStr =>
    let s' := s.allocate c
    match sendRpcStr env.codec ⟨inv.serviceName, inv.methodName, s.nextId, argsStr⟩ with
    | none => s'.failWith c .serializeRpcHeader
    | some sendRpcStr =>
      match getRpcAddress inv.methodPath inv.address with
      | .error error => s'.failWith c error
      | .ok hostData =>
        s'.setCall c { s'.calls c with
            pc := .connecting, hostData := hostData, sendRpcStr := sendRpcStr }

def Connected (hostData : String) : Prop :=
  s.clientfd ≠ none ∧ s.running = true ∧ s.connectedHost = hostData

instance (hostData : String) : Decidable (s.Connected hostData) :=
  inferInstanceAs (Decidable (_ ∧ _ ∧ _))

def connect : Channel :=
  if s.Connected (s.calls c).hostData then s.goto c .registering
  else { s.goto c .joining with connMtx := some c, clientfd := none }

/-- A thread that joins itself gets an exception that nothing catches. -/
def join : Channel :=
  if s.recvThread ≠ none ∧ (s.calls c).thread = .recv then { s with crashed := true }
  else { s.goto c .opening with recvThread := none, connectedHost := "" }

/-- The rest of `ensureConnected`. The port parses here; that `stoi` throws when it does not, and
which addresses these are, is the subject of `Endpoint.ensureConnected`. -/
def openConnection (result : Opening) : Channel :=
  let hostData := (s.calls c).hostData
  if ':' ∈ hostData.toList then
    match result with
    | .socketError errno => { s.failWith c (.createSocket errno) with connMtx := none }
    | .connectError errno => { s.failWith c (.connect errno) with connMtx := none }
    | .connected =>
      { s.goto c .registering with
        connMtx := none, clientfd := some s.links.length, connectedHost := hostData,
        running := true,
        recvThread := some .top, links := s.links ++ [⟨hostData, []⟩] }
  else { s.failWith c (.addressInvalid hostData) with connMtx := none }

def deadline : Option ℕ := if 0 < s.timeoutMs then some (s.now + s.timeoutMs.toNat) else none

def register : Channel :=
  { (s.goto c .locking).record [.registered c s.deadline] with
    pending := s.pending.insert (s.calls c).requestId ⟨c, s.deadline⟩ }

def lockSend : Channel :=
  { s.setCall c { s.calls c with pc := .sending, written := 0 } with sendMtx := some c }

def write (n : ℕ) : List Link :=
  let piece := ((s.calls c).sendRpcStr.drop (s.calls c).written).take n
  match s.clientfd with
  | none => s.links
  | some fd => s.links.modify fd (fun link => { link with wire := link.wire ++ [(c, piece)] })

def send (ret : ℕ) : Channel :=
  let written := (s.calls c).written + ret
  if written < (s.calls c).sendRpcStr.length then
    { s.setCall c { s.calls c with written := written } with links := s.write c ret }
  else
    { s.setCall c { s.calls c with written := written, pc := .sent } with
      links := s.write c ret, sendMtx := none }

def sendFail (errno : ℕ) : Channel :=
  { s.setCall c { s.calls c with pc := .undoing, error := some (.send errno) } with
    sendMtx := none }

def undo : Channel :=
  match s.pending.lookup (s.calls c).requestId with
  | none => s.goto c .returned
  | some _ =>
    { (s.goto c .failing).record [.took .callAsync c, .freed .callAsync c] with
      pending := s.pending.erase (s.calls c).requestId }

def fail : Channel := (s.goto c .inDone).record [.done .callAsync c (s.calls c).error s.now]

def take (w : Worker) (taker : Taker) (failed : Option Reason) (taken rest : PendingMap) :
    Channel :=
  { (s.setBatch w ⟨taker, failed, taken, none⟩).record
    (taken.entries.map (fun e => .took taker e.2.call)) with
    pending := rest }

def failAllPending (w : Worker) (reason : Reason) : Channel :=
  s.take w .failAllPending (some reason) s.pending ∅

def recvTop : Channel :=
  if s.running then { s with recvThread := some .reading, reading := .size [] }
  else { s with recvThread := some .failing, running := false }

def recvTake (id : UInt64) (body : Bytes) : Channel :=
  match s.pending.lookup id with
  | none => { s.record [.arrived id body] with recvThread := some .top }
  | some pend =>
    let failed := if env.parses pend.call body then none else some .parseResponse
    { (s.record [.arrived id body]).take .recv .recvLoop failed (AList.singleton id pend)
      (s.pending.erase id) with
      recvThread := some .completing }

def tick : Channel :=
  let expired := select s.pending (Pending.expired s.now)
  if expired.entries = [] then s
  else
    { s.take .timer .timerLoop (some .rpcTimeout) expired
        (select s.pending (fun pend => !pend.expired s.now)) with
      timer := .expiring }

def runDone (w : Worker) (id : UInt64) : Channel :=
  let b := s.batches w
  match b.todo.lookup id with
  | none => s
  | some pend =>
    (s.setBatch w { b with todo := b.todo.erase id, running := some pend }).record
      [.done b.taker pend.call b.failed s.now]

def free (w : Worker) : Channel :=
  let b := s.batches w
  match b.running with
  | none => s
  | some pend => (s.setBatch w { b with running := none }).record [.freed b.taker pend.call]

/-- What a step waits for: the program counter of its thread, and the locks and joins. -/
def Enabled : Action → Prop
  | .start none => s.destructor = .alive
  | .start (some p) => s.destructor = .alive ∧ s.doneThread p ≠ none ∧ s.childrenReturned p
  | .prepare c _ => (s.calls c).pc = .preparing
  | .connect c => (s.calls c).pc = .connecting ∧ s.connMtx = none
  | .join c => (s.calls c).pc = .joining ∧
      (s.recvThread = none ∨ s.recvThread = some .finished ∨ (s.calls c).thread = .recv)
  | .openConnection c _ => (s.calls c).pc = .opening
  | .register c => (s.calls c).pc = .registering
  | .lockSend c => (s.calls c).pc = .locking ∧ s.sendMtx = none
  | .send c ret => (s.calls c).pc = .sending ∧ s.clientfd ≠ none ∧ 0 < ret ∧
      (s.calls c).written + ret ≤ (s.calls c).sendRpcStr.length
  | .sendFail c _ => (s.calls c).pc = .sending
  | .undo c => (s.calls c).pc = .undoing
  | .fail c => (s.calls c).pc = .failing
  | .return c => (s.calls c).pc = .inDone ∧ s.childrenReturned c
  | .recvTop => s.recvThread = some .top
  | .recv piece => s.recvThread = some .reading ∧ s.clientfd ≠ none ∧ piece ≠ [] ∧
      piece.length ≤ s.reading.wants
  | .recvFail => s.recvThread = some .reading ∧ (s.reading = .illegal ∨ 0 < s.reading.wants)
  | .recvTake id body => s.recvThread = some .reading ∧ s.reading = .frame id body
  | .recvNext => s.recvThread = some .completing ∧ (s.batches .recv).Done
  | .recvFailAll => s.recvThread = some .failing
  | .recvFinish => s.recvThread = some .draining ∧ (s.batches .recv).Done
  | .tick => s.timer = .waiting ∧ s.timerRunning = true
  | .timerNext => s.timer = .expiring ∧ (s.batches .timer).Done
  | .timerExit => s.timer = .waiting ∧ s.timerRunning = false
  | .runDone w id => (s.batches w).running = none ∧ (s.batches w).todo.lookup id ≠ none
  | .free w => ∃ pend ∈ (s.batches w).running, s.childrenReturned pend.call
  | .destroy => s.destructor = .alive ∧ ∀ c < s.started, s.Returned c
  | .joinTimer => s.destructor = .joiningTimer ∧ s.timer = .finished
  | .teardown => s.destructor = .tearingDown ∧ s.connMtx = none
  | .joinRecv => s.destructor = .joiningRecv ∧ (s.recvThread = none ∨ s.recvThread = some .finished)
  | .closeAll => s.destructor = .failing
  | .destroyed => s.destructor = .draining ∧ (s.batches .destructor).Done
  | .clock _ | .setTimeoutMs _ => True

instance Enabled.decidable : ∀ a, Decidable (s.Enabled a)
  | .start none | .prepare _ _ | .openConnection _ _ | .register _ | .sendFail _ _ | .undo _ |
      .fail _ | .recvTop
  | .recvFailAll | .closeAll => inferInstanceAs (Decidable (_ = _))
  | .start (some p) => inferInstanceAs (Decidable (_ ∧ _ ∧ s.childrenReturned p))
  | .return c => inferInstanceAs (Decidable (_ ∧ s.childrenReturned c))
  | .connect _ | .lockSend _ | .recvTake _ _ | .tick | .timerExit | .joinTimer | .teardown =>
    inferInstanceAs (Decidable (_ = _ ∧ _ = _))
  | .join _ => inferInstanceAs (Decidable (_ = _ ∧ (_ = _ ∨ _ = _ ∨ _ = _)))
  | .send _ _ => inferInstanceAs (Decidable (_ = _ ∧ _ ≠ _ ∧ _ < _ ∧ _ ≤ _))
  | .recv _ => inferInstanceAs (Decidable (_ = _ ∧ _ ≠ _ ∧ _ ≠ _ ∧ _ ≤ _))
  | .recvFail => inferInstanceAs (Decidable (_ = _ ∧ (_ = _ ∨ _ < _)))
  | .recvNext | .recvFinish | .timerNext | .destroyed =>
    inferInstanceAs (Decidable (_ = _ ∧ Batch.Done _))
  | .runDone _ _ => inferInstanceAs (Decidable (_ = _ ∧ _ ≠ _))
  | .free w =>
    inferInstanceAs (Decidable (∃ pend ∈ (s.batches w).running, s.childrenReturned pend.call))
  | .destroy => inferInstanceAs (Decidable (_ = _ ∧ ∀ c < s.started, _))
  | .joinRecv => inferInstanceAs (Decidable (_ = _ ∧ (_ = _ ∨ _ = _)))
  | .clock _ | .setTimeoutMs _ => .isTrue trivial

def effect : Action → Channel
  | .start parent => s.start parent
  | .prepare c inv => s.prepare env c inv
  | .connect c => s.connect c
  | .join c => s.join c
  | .openConnection c result => s.openConnection c result
  | .register c => s.register c
  | .lockSend c => s.lockSend c
  | .send c ret => s.send c ret
  | .sendFail c errno => s.sendFail c errno
  | .undo c => s.undo c
  | .fail c => s.fail c
  | .return c => s.goto c .returned
  | .recvTop => s.recvTop
  | .recv piece => { s with reading := s.reading.recv piece }
  | .recvFail => { s with recvThread := some .failing, running := false }
  | .recvTake id body => s.recvTake env id body
  | .recvNext => { s with recvThread := some .top }
  | .recvFailAll => { s.failAllPending .recv .connectionClosed with recvThread := some .draining }
  | .recvFinish => { s with recvThread := some .finished }
  | .tick => s.tick
  | .timerNext => { s with timer := .waiting }
  | .timerExit => { s with timer := .finished }
  | .runDone w id => s.runDone w id
  | .free w => s.free w
  | .destroy => { s with destructor := .joiningTimer, timerRunning := false }
  | .joinTimer => { s with destructor := .tearingDown }
  | .teardown =>
    { s with destructor := .joiningRecv, running := false, clientfd := none, connectedHost := "" }
  | .joinRecv => { s with destructor := .failing, recvThread := none }
  | .closeAll => { s.failAllPending .destructor .channelClosed with destructor := .draining }
  | .destroyed => { s with destructor := .returned }
  | .clock ms => { s with now := s.now + ms }
  | .setTimeoutMs ms => { s with timeoutMs := ms }

def step (a : Action) : Option Channel :=
  if s.crashed = false ∧ s.Enabled a then some (s.effect env a) else none

def constructed : Channel := {}

end Channel

end KimRpc.Client
