import KimRpc.Coroutine.Programs
import KimRpc.Library.IoRing

/-! Coroutine frames, the promise each of them carries, and the thread that runs them in
`sync_wait` over an io_uring. -/

namespace KimRpc.Coroutine

open Library

def ENOMEM : ℤ := 12

variable {ι : Type} {T : ι → Type} {E : Type} {i : ι}

/-- Where a coroutine goes on: in its body, in `await_resume` of a `UringAwaiter` with the
result of its request, in `await_resume` of a task, or nowhere after its final suspend. -/
inductive Point (T : ι → Type) (E : Type) (i : ι)
  | body (p : Prog T E i)
  | awaitIo (k : ℤ → Prog T E i) (result : ℤ)
  | awaitTask {w : ι} (coro : ℕ) (k : Except E (T w) → Prog T E i)
  | final

structure Frame (T : ι → Type) (E : Type) where
  type : ι
  point : Point T E type
  continuation : Option ℕ
  exception : Option E
  value : Option (T type)

inductive Resumer where
  | syncWait
  | drainCqes (head : ℕ)
  deriving DecidableEq

inductive Control (T : ι → Type) (E : Type) (i : ι)
  | coroutine (h : ℕ) (caller : Resumer)
  | resumer (caller : Resumer)
  | returned (outcome : Except E (T i))

/-- What has happened, which no step reads: the results of the awaits, a completion or that
there was no SQE; for which coroutine an SQE was prepared, a completion posted and a resume
called; and which coroutine was awaited by and gave control back to which. -/
structure Log where
  results : List ℤ := []
  prepared : List ℕ := []
  posted : List (ℕ × ℤ) := []
  resumed : List (ℕ × ℤ) := []
  awaited : List (ℕ × ℕ) := []
  handedBack : List (ℕ × ℕ) := []
  deriving DecidableEq

/-- The user data of an operation is the coroutine with bit 63, or none of a coroutine. -/
structure State (T : ι → Type) (E : Type) (i : ι) where
  frames : ℕ → Option (Frame T E)
  fresh : ℕ
  ring : IoRing (Option ℕ)
  control : Control T E i
  log : Log

def start (p : Prog T E i) (ring : IoRing (Option ℕ)) : State T E i where
  frames := Function.update (fun _ => none) 0 (some ⟨i, .body p, none, none, none⟩)
  fresh := 1
  ring := ring
  control := .coroutine 0 .syncWait
  log := {}

def Frame.result [DecidableEq ι] (f : Frame T E) (w : ι) : Option (Except E (T w)) :=
  match f.exception with
  | some e => some (.error e)
  | none => if h : f.type = w then f.value.map (fun value => .ok (h ▸ value)) else none

/-- `UringAwaiter::await_suspend`: whether there was an SQE, and the ring; `n` is what the
kernel accepts if the ring has to be submitted first. -/
def awaitSuspend (entries n h : ℕ) (ring : IoRing (Option ℕ)) : Bool × IoRing (Option ℕ) :=
  if ring.sq.length < entries then (true, ring.prepare (some h))
  else
    let flushed := ring.submit n
    if flushed.sq.length < entries then (true, flushed.prepare (some h)) else (false, flushed)

namespace State

def setFrame (s : State T E i) (h : ℕ) (f : Option (Frame T E)) : State T E i :=
  { s with frames := Function.update s.frames h f }

/-- `FinalAwaiter`: control goes to the continuation, or with `noop_coroutine` to the resumer. -/
def finalSuspend (s : State T E i) (h : ℕ) (caller : Resumer) (f : Frame T E) : State T E i :=
  match f.continuation with
  | some p =>
    { s.setFrame h (some f) with
      control := .coroutine p caller, log.handedBack := s.log.handedBack ++ [(h, p)] }
  | none => { s.setFrame h (some f) with control := .resumer caller }

/-- A coroutine runs up to where it suspends, resumes or ends; running one that ended or whose
frame is gone is undefined. A task that was just created is never ready. -/
def run [DecidableEq ι] (entries n : ℕ) (s : State T E i) (h : ℕ) (caller : Resumer)
    (f : Frame T E) :
    Option (State T E i) :=
  match f with
  | ⟨type, .body (.coReturn value), continuation, exception, _⟩ =>
    some (s.finalSuspend h caller ⟨type, .final, continuation, exception, some value⟩)
  | ⟨type, .body (.throw e), continuation, _, value⟩ =>
    some (s.finalSuspend h caller ⟨type, .final, continuation, some e, value⟩)
  | ⟨type, .body (.awaitIo k), continuation, exception, value⟩ =>
    match awaitSuspend entries n h s.ring with
    | (true, ring) =>
      let s := s.setFrame h (some ⟨type, .awaitIo k 0, continuation, exception, value⟩)
      some { s with
          ring := ring, control := .resumer caller, log.prepared := s.log.prepared ++ [h] }
    | (false, ring) =>
      let s := s.setFrame h (some ⟨type, .awaitIo k (-ENOMEM), continuation, exception, value⟩)
      some { s with ring := ring, log.results := s.log.results ++ [-ENOMEM] }
  | ⟨type, .body (.awaitTask sub k), continuation, exception, value⟩ =>
    let coro := s.fresh
    let s := s.setFrame h (some ⟨type, .awaitTask coro k, continuation, exception, value⟩)
    let s := s.setFrame coro (some ⟨_, .body sub, some h, none, none⟩)
    some { s with
        fresh := coro + 1, control := .coroutine coro caller,
        log.awaited := s.log.awaited ++ [(coro, h)] }
  | ⟨type, .awaitIo k result, continuation, exception, value⟩ =>
    some (s.setFrame h (some ⟨type, .body (k result), continuation, exception, value⟩))
  | ⟨type, @Point.awaitTask _ _ _ _ w coro k, continuation, exception, value⟩ => do
    let o ← (← s.frames coro).result w
    some ((s.setFrame coro none).setFrame h
      (some ⟨type, .body (k o), continuation, exception, value⟩))
  | ⟨_, .final, _, _, _⟩ => none

/-- `resumeFromCqe`; resuming a coroutine that awaits no operation is undefined. -/
def resumeFromCqe (s : State T E i) (h : ℕ) (res : ℤ) (head : ℕ) : Option (State T E i) :=
  match s.frames h with
  | some ⟨type, .awaitIo k _, continuation, exception, value⟩ =>
    let s := s.setFrame h (some ⟨type, .awaitIo k res, continuation, exception, value⟩)
    some { s with
        control := .coroutine h (.drainCqes head), log.resumed := s.log.resumed ++ [(h, res)] }
  | _ => none

def drainCqes (s : State T E i) (head : ℕ) : Option (State T E i) :=
  match s.ring.cq[head]? with
  | some (some h, res) => s.resumeFromCqe h res (head + 1)
  | some (none, _) => some { s with control := .resumer (.drainCqes (head + 1)) }
  | none => some { s with ring := s.ring.advance head, control := .resumer .syncWait }

def syncWait [DecidableEq ι] (n : ℕ) (s : State T E i) : Option (State T E i) :=
  match s.frames 0 with
  | some ⟨type, .final, continuation, exception, value⟩ =>
    (Frame.result ⟨type, .final, continuation, exception, value⟩ i).map (fun o => { s with
      control := .returned o })
  | some _ => some { s with ring := s.ring.submit n, control := .resumer (.drainCqes 0) }
  | none => none

def thread [DecidableEq ι] (entries n : ℕ) (s : State T E i) : Option (State T E i) :=
  match s.control with
  | .coroutine h caller => (s.frames h).bind (s.run entries n h caller)
  | .resumer .syncWait => s.syncWait n
  | .resumer (.drainCqes head) => s.drainCqes head
  | .returned _ => some s

def post (s : State T E i) (a : Option ℕ) (res : ℤ) : State T E i :=
  match a with
  | none => { s with ring := s.ring.complete none res }
  | some h =>
    { s with ring := s.ring.complete (some h) res, log.results := s.log.results ++ [res],
             log.posted := s.log.posted ++ [(h, res)] }

end State

/-- A step of the thread, with the number of operations that the kernel accepts if it submits
any, which is none when the submission fails, or a completion. -/
inductive Action where
  | thread (n : ℕ)
  | complete (a : Option ℕ) (res : ℤ)
  deriving DecidableEq

def step [DecidableEq ι] (entries : ℕ) (s : State T E i) : Action → Option (State T E i)
  | .thread n => s.thread entries n
  | .complete a res => if a ∈ s.ring.inKernel then some (s.post a res) else none

end KimRpc.Coroutine
