import KimRpc.Wire.RpcHeader
import Mathlib.Logic.Function.Basic
import Mathlib.Data.List.Basic

/-! The contexts of the connections of a server: the table of active ones by file
descriptor, and the pool of those to be used again. A context is named by its
position among all that were ever made. -/

namespace KimRpc.Server

open Wire

/-- `socket` is no field of the source: the open socket behind `fd` when the context
was acquired, however the descriptor is used later. -/
structure ConnectionContext where
  fd : ℕ := 0
  connId : UInt64 := 0
  input : Bytes := []
  outQueue : List Bytes := []
  written : ℕ := 0
  sending : Bool := false
  inflight : ℤ := 0
  closing : Bool := false
  pendingReqs : ℤ := 0
  readPaused : Bool := false
  socket : ℕ := 0

def ConnectionContext.reset (ctx : ConnectionContext) (newfd : ℕ) : ConnectionContext :=
  { ctx with
    fd := newfd, input := [], outQueue := [], written := 0, sending := false, inflight := 0,
    closing := false, pendingReqs := 0, readPaused := false }

structure ConnectionManager where
  active : ℕ → Option ℕ := fun _ => none
  contexts : ℕ → ConnectionContext := fun _ => {}
  allConns : ℕ := 0
  idlePool : List ℕ := []
  nextId : UInt64 := 1

namespace ConnectionManager

variable (m : ConnectionManager) (fd p : ℕ)

def find : Option ℕ := m.active fd

def modify (f : ConnectionContext → ConnectionContext) : ConnectionManager :=
  { m with contexts := Function.update m.contexts p (f (m.contexts p)) }

/-- The back of the pool is the head of the list. -/
def recycle : ConnectionManager := { m with idlePool := p :: m.idlePool }

def idle : ℕ × ConnectionManager :=
  match m.idlePool with
  | p :: pool => (p, { m with idlePool := pool })
  | [] => (m.allConns, { m with allConns := m.allConns + 1 })

def acquire (socket : ℕ) : ConnectionManager :=
  let (p, m') := m.idle
  { m'.modify p (fun ctx => { ctx.reset fd with connId := m.nextId, socket := socket }) with
    active := Function.update m.active fd (some p), nextId := m.nextId + 1 }

def onSubmit : ConnectionManager :=
  m.modify p (fun ctx => { ctx with inflight := ctx.inflight + 1 })

def onComplete : Bool × ConnectionManager :=
  let m' := m.modify p (fun ctx => { ctx with inflight := ctx.inflight - 1 })
  if (m'.contexts p).closing = true ∧
    (m'.contexts p).inflight = 0 then (true, m'.recycle p) else (false, m')

/-- Without the system call, which the event loop's state models. -/
def close : ConnectionManager :=
  match m.find fd with
  | none => m
  | some p =>
    let m' := { m with active := Function.update m.active fd none }.modify p (fun ctx => { ctx with
        closing := true })
    if (m'.contexts p).inflight = 0 then m'.recycle p else m'

variable {m fd p}

lemma close_of_none (h : m.find fd = none) : m.close fd = m := by simp [close, h]

lemma close_of_find (h : m.find fd = some p) : m.close fd = { m with
    active := Function.update m.active fd none
    contexts := Function.update m.contexts p { m.contexts p with closing := true }
    idlePool := if (m.contexts p).inflight = 0 then p :: m.idlePool else m.idlePool } := by
  simp only [close, h, modify, recycle, Function.update_self]
  split_ifs <;> rfl

lemma onComplete_recycles :
    (m.onComplete p).1 = decide ((m.contexts p).closing = true ∧ (m.contexts p).inflight = 1) := by
  simp only [onComplete, modify, Function.update_self, sub_eq_zero]
  split_ifs with h <;> simp [h]

lemma onComplete_eq : (m.onComplete p).2 = { m with
    contexts :=
      Function.update m.contexts p { m.contexts p with inflight := (m.contexts p).inflight - 1 }
    idlePool := if (m.contexts p).closing = true ∧ (m.contexts p).inflight = 1 then p :: m.idlePool
      else m.idlePool } := by
  simp only [onComplete, modify, recycle, Function.update_self, sub_eq_zero]
  split_ifs <;> rfl

lemma idle_of_nil (h : m.idlePool = []) :
    m.idle = (m.allConns, { m with allConns := m.allConns + 1 }) := by
  simp only [idle, h]

lemma idle_of_cons {pool : List ℕ} (h : m.idlePool = p :: pool) :
    m.idle = (p, { m with idlePool := pool }) := by
  simp only [idle, h]

lemma acquire_eq (m : ConnectionManager) (fd socket : ℕ) : m.acquire fd socket =
    { active := Function.update m.active fd (some m.idle.1)
      contexts := Function.update m.contexts m.idle.1
        { (m.contexts m.idle.1).reset fd with connId := m.nextId, socket := socket }
      allConns := m.idle.2.allConns
      idlePool := m.idle.2.idlePool
      nextId := m.nextId + 1 } := by
  cases h : m.idlePool <;> simp [acquire, idle, h, modify]

end ConnectionManager

end KimRpc.Server
