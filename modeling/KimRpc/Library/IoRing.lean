import Mathlib.Data.List.Perm.Basic
import Mathlib.Tactic

/-! A submission and completion ring between one thread and a kernel that completes the
operations in any order. No operation is lost or made up between the queues. -/

namespace KimRpc.Library

structure IoRing (α : Type*) where
  sq : List α := []
  inKernel : List α := []
  cq : List (α × ℤ) := []
  deriving DecidableEq

namespace IoRing

variable {α : Type*} {r : IoRing α} {a : α} {n : ℕ}

def outstanding (r : IoRing α) : List α := r.sq ++ r.inKernel ++ r.cq.map Prod.fst

def unserved (r : IoRing α) : List α := r.sq ++ r.inKernel

def prepare (r : IoRing α) (a : α) : IoRing α := { r with sq := r.sq ++ [a] }

def submit (r : IoRing α) (n : ℕ) : IoRing α :=
  { r with sq := r.sq.drop n, inKernel := r.inKernel ++ r.sq.take n }

def complete [DecidableEq α] (r : IoRing α) (a : α) (res : ℤ) : IoRing α :=
  { r with inKernel := r.inKernel.erase a, cq := r.cq ++ [(a, res)] }

def advance (r : IoRing α) (n : ℕ) : IoRing α := { r with cq := r.cq.drop n }

lemma unserved_submit : (r.submit n).unserved.Perm r.unserved := by
  have h : (r.sq.drop n ++ (r.inKernel ++ r.sq.take n)).Perm
      ((r.sq.take n ++ r.sq.drop n) ++ r.inKernel) := by
    rw [← List.append_assoc]
    apply List.perm_append_comm.trans
    rw [List.append_assoc]
  rwa [List.take_append_drop] at h

lemma outstanding_eq (r : IoRing α) : r.outstanding = r.unserved ++ r.cq.map Prod.fst := rfl

lemma outstanding_submit :
    (r.submit n).outstanding.Perm r.outstanding := unserved_submit.append_right _

lemma outstanding_prepare : (r.prepare a).outstanding.Perm (a :: r.outstanding) := by
  simp only [outstanding, prepare, List.append_assoc]
  exact List.perm_middle

lemma unserved_complete [DecidableEq α] (h : a ∈ r.inKernel) (res : ℤ) :
    r.unserved.Perm (a :: (r.complete a res).unserved) := by
  apply ((List.perm_cons_erase h).append_left r.sq).trans
  exact List.perm_middle

lemma outstanding_complete [DecidableEq α] (h : a ∈ r.inKernel) (res : ℤ) :
    (r.complete a res).outstanding.Perm r.outstanding := by
  apply List.Perm.symm
  apply ((unserved_complete h res).append_right _).trans
  rw [outstanding_eq, complete, List.map_append, ← List.append_assoc]
  exact (List.perm_append_singleton a _).symm

lemma outstanding_advance {res : ℤ} {rest : List (α × ℤ)} (h : r.cq = (a, res) :: rest) :
    r.outstanding.Perm (a :: (r.advance 1).outstanding) := by
  rw [outstanding_eq, outstanding_eq, advance, h, List.drop_one, List.tail_cons, List.map_cons]
  exact List.perm_middle

lemma length_outstanding (r : IoRing α) :
    r.outstanding.length = r.unserved.length + r.cq.length := by
  rw [outstanding_eq, List.length_append, List.length_map]

end IoRing

end KimRpc.Library
