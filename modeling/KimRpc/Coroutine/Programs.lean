import Mathlib.Tactic

/-! Coroutine bodies as trees of what they await, and what they come to in direct style. -/

namespace KimRpc.Coroutine

variable {ι : Type} {T : ι → Type} {E : Type} {i j w : ι}

/-- The body of a coroutine that returns a `Task` of type `i`. After a sub-task it goes on
with its value, or in the handler of its exception, which may throw it on. -/
inductive Prog (T : ι → Type) (E : Type) : ι → Type
  | coReturn {i : ι} (value : T i) : Prog T E i
  | throw {i : ι} (e : E) : Prog T E i
  | awaitIo {i : ι} (k : ℤ → Prog T E i) : Prog T E i
  | awaitTask {i w : ι} (sub : Prog T E w) (k : Except E (T w) → Prog T E i) : Prog T E i

namespace Prog

def uncaught (sub : Prog T E w) (k : T w → Prog T E i) : Prog T E i :=
  awaitTask sub fun
    | .ok value => k value
    | .error e => throw e

def ofOutcome : Except E (T i) → Prog T E i
  | .ok value => coReturn value
  | .error e => throw e

lemma awaitIo_ne_ofOutcome (k : ℤ → Prog T E i) (o : Except E (T i)) : awaitIo k ≠ ofOutcome o := by
  cases o <;> exact nofun

lemma awaitTask_ne_ofOutcome (sub : Prog T E w) (k : Except E (T w) → Prog T E i)
    (o : Except E (T i)) :
    awaitTask sub k ≠ ofOutcome o := by
  cases o <;> exact nofun

/-- Direct style: the outcome under the results of the operations, and the results not used. -/
def eval {i : ι} : Prog T E i → List ℤ → Option (Except E (T i) × List ℤ)
  | coReturn value, rs => some (.ok value, rs)
  | throw e, rs => some (.error e, rs)
  | awaitIo _, [] => none
  | awaitIo k, r :: rs => eval (k r) rs
  | awaitTask sub k, rs => (eval sub rs).bind (fun x => eval (k x.1) x.2)

lemma eval_ofOutcome (o : Except E (T i)) (rs : List ℤ) : (ofOutcome o).eval rs = some (o, rs) := by
  cases o <;> rfl

inductive Next : {i : ι} → Prog T E i → Prog T E i → Prop
  | result {i : ι} {k : ℤ → Prog T E i} (r : ℤ) : Next (k r) (awaitIo k)
  | outcome {i w : ι} {k : Except E (T w) → Prog T E i} (o : Except E (T w)) :
      Next (k o) (awaitTask (ofOutcome o) k)
  | sub {i w : ι} {p q : Prog T E w} {k : Except E (T w) → Prog T E i} : Next q p →
      Next (awaitTask q k) (awaitTask p k)

lemma acc_awaitTask {sub : Prog T E w} {k : Except E (T w) → Prog T E i} (h : Acc Next sub)
    (hk : ∀ o, Acc Next (k o)) :
    Acc Next (awaitTask sub k) := by
  induction h with
  | intro sub _ ih =>
    refine ⟨_, ?_⟩
    intro q hq
    generalize hp : awaitTask sub k = p at hq
    cases hq with
    | result r => cases hp
    | outcome o =>
      cases hp
      exact hk o
    | sub hnext =>
      cases hp
      exact ih _ hnext

lemma acc_next (p : Prog T E i) : Acc Next p := by
  induction p with
  | coReturn value => exact ⟨_, nofun⟩
  | throw e => exact ⟨_, nofun⟩
  | awaitIo k ih =>
    refine ⟨_, ?_⟩
    intro q hq
    generalize hp : awaitIo k = p at hq
    cases hq with
    | result r =>
      cases hp
      exact ih r
    | outcome o => cases hp
    | sub hnext => cases hp
  | awaitTask sub k ihsub ihk => exact acc_awaitTask ihsub ihk

end Prog

inductive Ctx (T : ι → Type) (E : Type) : ι → ι → Type
  | root {i : ι} : Ctx T E i i
  | caller {w j i : ι} (k : Except E (T w) → Prog T E j) (rest : Ctx T E j i) : Ctx T E w i

namespace Ctx

open Prog

def plug {w i : ι} : Ctx T E w i → Prog T E w → Prog T E i
  | root, p => p
  | caller k rest, p => rest.plug (.awaitTask p k)

lemma eval_plug (ctx : Ctx T E w i) {p q : Prog T E w} {rs rs' : List ℤ}
    (h : p.eval rs = q.eval rs') :
    (ctx.plug p).eval rs = (ctx.plug q).eval rs' := by
  induction ctx with
  | root => exact h
  | caller k rest ih =>
    apply ih
    rw [eval, eval, h]

lemma eval_plug_outcome (k : Except E (T w) → Prog T E j) (rest : Ctx T E j i) (o : Except E (T w))
    (rs : List ℤ) :
    ((caller k rest).plug (ofOutcome o)).eval rs = (rest.plug (k o)).eval rs := by
  apply rest.eval_plug
  rw [eval, eval_ofOutcome, Option.bind_some]

lemma next_plug (ctx : Ctx T E w i) {p q : Prog T E w} (h : Next q p) :
    Next (ctx.plug q) (ctx.plug p) := by
  induction ctx with
  | root => exact h
  | caller k rest ih => exact ih (.sub h)

end Ctx

end KimRpc.Coroutine
