import KimRpc.Coroutine.Frames
import KimRpc.Library.Runs

/-! The frames and the ring at each moment of `sync_wait` hold what is left of the program:
one coroutine runs or waits, and below it each caller awaits the next. -/

namespace KimRpc.Coroutine

open Library Library.Runs

section ring

structure Slot (r : IoRing (Option ℕ)) (head : ℕ) (unserved : List ℕ) (ready : List (ℕ × ℤ)) :
    Prop where
  head_le : head ≤ r.cq.length
  unserved : (r.unserved.filterMap id).Perm unserved
  ready : (r.cq.drop head).filterMap (fun c => c.1.map (·, c.2)) = ready

variable {r : IoRing (Option ℕ)} {head h n entries : ℕ} {res : ℤ} {unserved : List ℕ}
    {ready : List (ℕ × ℤ)}

lemma Slot.prepare (hs : Slot r head unserved ready) (h : ℕ) :
    Slot (r.prepare (some h)) head (h :: unserved) ready := by
  refine ⟨hs.head_le, ?_, hs.ready⟩
  have hperm : (r.prepare (some h)).unserved.Perm (some h :: r.unserved) := by
    simp only [IoRing.unserved, IoRing.prepare, List.append_assoc]
    exact List.perm_middle
  exact (hperm.filterMap id).trans (hs.unserved.cons h)

lemma Slot.submit (hs : Slot r head unserved ready) (n : ℕ) :
    Slot (r.submit n) head unserved ready :=
  ⟨hs.head_le, (IoRing.unserved_submit.filterMap id).trans hs.unserved, hs.ready⟩

lemma Slot.rewind (hs : Slot r head unserved ready) : Slot (r.advance head) 0 unserved ready :=
  ⟨Nat.zero_le _, hs.unserved, hs.ready⟩

lemma Slot.skip (hs : Slot r head unserved ready) (hc : r.cq[head]? = some (none, res)) :
    Slot r (head + 1) unserved ready := by
  obtain ⟨hlt, hget⟩ := List.getElem?_eq_some_iff.mp hc
  refine ⟨hlt, hs.unserved, ?_⟩
  have hready := hs.ready
  rw [List.drop_eq_getElem_cons hlt, hget] at hready
  exact hready

lemma Slot.next (hs : Slot r head unserved ready) (hc : r.cq[head]? = some (some h, res)) :
    ∃ rest, ready = (h, res) :: rest ∧ Slot r (head + 1) unserved rest := by
  obtain ⟨hlt, hget⟩ := List.getElem?_eq_some_iff.mp hc
  have hready := hs.ready
  rw [List.drop_eq_getElem_cons hlt, hget] at hready
  exact ⟨_, hready.symm, hlt, hs.unserved, rfl⟩

lemma Slot.ready_nil (hs : Slot r head unserved ready) (hc : r.cq[head]? = none) : ready = [] := by
  have hready := hs.ready
  rw [List.drop_of_length_le (List.getElem?_eq_none_iff.mp hc)] at hready
  exact hready.symm

lemma Slot.complete_other (hs : Slot r head unserved ready) (hmem : none ∈ r.inKernel) (res : ℤ) :
    Slot (r.complete none res) head unserved ready := by
  refine ⟨?_, ?_, ?_⟩
  · have hle := hs.head_le
    simp only [IoRing.complete, List.length_append]
    omega
  · have hperm := (IoRing.unserved_complete hmem res).filterMap id
    exact hperm.symm.trans hs.unserved
  · simp only [IoRing.complete, List.drop_append_of_le_length hs.head_le, List.filterMap_append,
      hs.ready]
    exact List.append_nil ready

lemma Slot.complete (hs : Slot r head unserved ready) (hmem : some h ∈ r.inKernel) (res : ℤ) :
    ∃ rest, unserved.Perm (h :: rest) ∧
    Slot (r.complete (some h) res) head rest (ready ++ [(h, res)]) := by
  have hperm := (IoRing.unserved_complete hmem res).filterMap id
  refine ⟨_, hs.unserved.symm.trans hperm, ?_, .rfl, ?_⟩
  · have hle := hs.head_le
    simp only [IoRing.complete, List.length_append]
    omega
  · simp only [IoRing.complete, List.drop_append_of_le_length hs.head_le, List.filterMap_append,
      hs.ready]
    rfl

lemma slot_awaitSuspend (hs : Slot r head unserved ready) (entries n h : ℕ) :
    (∃ r', awaitSuspend entries n h r = (true, r') ∧ Slot r' head (h :: unserved) ready) ∨
      ∃ r', awaitSuspend entries n h r = (false, r') ∧ Slot r' head unserved ready := by
  by_cases hfree : r.sq.length < entries
  · exact .inl ⟨_, if_pos hfree, hs.prepare h⟩
  by_cases hflushed : (r.submit n).sq.length < entries
  · refine .inl ⟨_, ?_, (hs.submit n).prepare h⟩
    rw [awaitSuspend, if_neg hfree]
    exact if_pos hflushed
  · refine .inr ⟨_, ?_, hs.submit n⟩
    rw [awaitSuspend, if_neg hfree]
    exact if_neg hflushed

end ring

variable {ι : Type} {T : ι → Type} {E : Type} {i w j : ι}

inductive Stack (frames : ℕ → Option (Frame T E)) {i : ι} :
    {w : ι} → ℕ → Option ℕ → List (ℕ × ℕ) → Ctx T E w i → Prop
  | root : Stack frames 0 none [] .root
  | caller {w j : ι} {h p : ℕ} {continuation : Option ℕ} {awaits : List (ℕ × ℕ)}
      {k : Except E (T w) → Prog T E j}
      {rest : Ctx T E j i} : frames p = some ⟨j, .awaitTask h k, continuation, none, none⟩ → p < h →
      Stack frames p continuation awaits rest →
      Stack frames h (some p) ((h, p) :: awaits) (.caller k rest)

lemma Stack.congr {frames frames' : ℕ → Option (Frame T E)} {h : ℕ} {continuation : Option ℕ}
    {awaits : List (ℕ × ℕ)}
    {ctx : Ctx T E w i} (hs : Stack frames h continuation awaits ctx)
    (heq : ∀ p < h, frames' p = frames p) :
    Stack frames' h continuation awaits ctx := by
  induction hs with
  | root => exact .root
  | caller hp hlt _ ih =>
    exact .caller ((heq _ hlt).trans hp) hlt (ih fun p hlt' => heq p (hlt'.trans hlt))

section frames

variable {s : State T E i} {h : ℕ} {ctx : Ctx T E w i} {awaits : List (ℕ × ℕ)}

lemma frames_setFrame (s : State T E i) (h : ℕ) (f : Option (Frame T E)) :
    (s.setFrame h f).frames h = f :=
  Function.update_self _ _ _

lemma frames_setFrame_ne {p : ℕ} (hne : p ≠ h) (s : State T E i) (f : Option (Frame T E)) :
    (s.setFrame h f).frames p = s.frames p :=
  Function.update_of_ne hne _ _

lemma Stack.setFrame {continuation : Option ℕ} (hs : Stack s.frames h continuation awaits ctx)
    {c : ℕ} (hc : h ≤ c)
    (f : Option (Frame T E)) : Stack (s.setFrame c f).frames h continuation awaits ctx :=
  hs.congr fun p hp => frames_setFrame_ne (by omega) s f

lemma Stack.root_open {frames : ℕ → Option (Frame T E)} {continuation : Option ℕ} {f : Frame T E}
    (hs : Stack frames h continuation awaits ctx) (hf : frames h = some f)
    (hopen : f.point ≠ .final) :
    ∃ g, frames 0 = some g ∧ g.point ≠ .final := by
  induction hs generalizing f with
  | root => exact ⟨f, hf, hopen⟩
  | caller hp _ _ ih => exact ih hp nofun

lemma drainCqes_end {head : ℕ} (hend : s.ring.cq[head]? = none) :
    s.drainCqes head = some { s with
      ring := s.ring.advance head, control := .resumer .syncWait } := by
  rw [State.drainCqes, hend]

lemma drainCqes_other {head : ℕ} {res : ℤ} (hother : s.ring.cq[head]? = some (none, res)) :
    s.drainCqes head = some { s with control := .resumer (.drainCqes (head + 1)) } := by
  rw [State.drainCqes, hother]

lemma length_post (hmem : none ∈ s.ring.inKernel) (res : ℤ) :
    (s.post none res).ring.outstanding.length = s.ring.outstanding.length :=
  (IoRing.outstanding_complete hmem res).length_eq

end frames

/-- The moments of `sync_wait`, each with what is left to be run. -/
inductive Phase (T : ι → Type) (E : Type) (i : ι)
  | running {w : ι} (ctx : Ctx T E w i) (p : Prog T E w)
  | suspended {w : ι} (ctx : Ctx T E w i) (k : ℤ → Prog T E w)
  | posted {w : ι} (ctx : Ctx T E w i) (p : Prog T E w)
  | resumed {w : ι} (ctx : Ctx T E w i) (p : Prog T E w)
  | handedBack {w : ι} (ctx : Ctx T E w i) (p : Prog T E w)
  | finished (o : Except E (T i))
  | returned (o : Except E (T i))

def Phase.rest : Phase T E i → Prog T E i
  | running ctx p => ctx.plug p
  | suspended ctx k => ctx.plug (.awaitIo k)
  | posted ctx p => ctx.plug p
  | resumed ctx p => ctx.plug p
  | handedBack ctx p => ctx.plug p
  | finished o => .ofOutcome o
  | returned o => .ofOutcome o

def Resumer.head : Resumer → ℕ
  | syncWait => 0
  | drainCqes head => head

variable [DecidableEq ι]

inductive At (s : State T E i) : Phase T E i → List ℕ → List (ℕ × ℤ) → List (ℕ × ℕ) → Prop
  | running {w h caller continuation awaits} {ctx : Ctx T E w i} {p} :
      s.control = .coroutine h caller →
      s.frames h = some ⟨w, .body p, continuation, none, none⟩ → h < s.fresh →
      Stack s.frames h continuation awaits ctx → Slot s.ring caller.head [] [] →
      At s (.running ctx p) [] [] awaits
  | suspended {w h caller continuation awaits result} {ctx : Ctx T E w i} {k} :
      s.control = .resumer caller →
      s.frames h = some ⟨w, .awaitIo k result, continuation, none, none⟩ → h < s.fresh →
      Stack s.frames h continuation awaits ctx → Slot s.ring caller.head [h] [] →
      At s (.suspended ctx k) [h] [] awaits
  | posted {w h caller continuation awaits result res} {ctx : Ctx T E w i} {k} :
      s.control = .resumer caller →
      s.frames h = some ⟨w, .awaitIo k result, continuation, none, none⟩ → h < s.fresh →
      Stack s.frames h continuation awaits ctx → Slot s.ring caller.head [] [(h, res)] →
      At s (.posted ctx (k res)) [] [(h, res)] awaits
  | resumed {w h caller continuation awaits result} {ctx : Ctx T E w i} {k} :
      s.control = .coroutine h caller →
      s.frames h = some ⟨w, .awaitIo k result, continuation, none, none⟩ → h < s.fresh →
      Stack s.frames h continuation awaits ctx → Slot s.ring caller.head [] [] →
      At s (.resumed ctx (k result)) [] [] awaits
  | handedBack {w v p coro caller continuation awaits f o} {ctx : Ctx T E w i} {k : Except E (T v) →
      Prog T E w} :
      s.control = .coroutine p caller →
      s.frames p = some ⟨w, .awaitTask coro k, continuation, none, none⟩ →
      p < s.fresh → p < coro → s.frames coro = some f → f.result v = some o →
      Stack s.frames p continuation awaits ctx →
      Slot s.ring caller.head [] [] → At s (.handedBack ctx (k o)) [] [] awaits
  | finished {caller exception value o} : s.control = .resumer caller →
      s.frames 0 = some ⟨i, .final, none, exception, value⟩ →
      (⟨i, .final, none, exception, value⟩ : Frame T E).result i = some o →
      Slot s.ring caller.head [] [] →
      At s (.finished o) [] [] []
  | returned {o} : s.control = .returned o → Slot s.ring 0 [] [] → At s (.returned o) [] [] []

/-- The log agrees with what is left: the results so far lead there, every completion is for
the next SQE prepared and every resume for the next completion, and each coroutine that was
awaited has given control back or is among those that have yet to. -/
structure Logged (prog : Prog T E i) (log : Log) (fresh : ℕ) (rest : Prog T E i) (unserved : List ℕ)
    (ready : List (ℕ × ℤ)) (awaits : List (ℕ × ℕ)) : Prop where
  direct : ∀ rs, prog.eval (log.results ++ rs) = rest.eval rs
  prepared : log.prepared = log.posted.map Prod.fst ++ unserved
  posted : log.posted = log.resumed ++ ready
  awaited : log.awaited.Perm (awaits ++ log.handedBack)
  old : ∀ x ∈ log.awaited, x.1 < fresh
  nodup : (log.awaited.map Prod.fst).Nodup

omit [DecidableEq ι] in
lemma Logged.direct_result {prog : Prog T E i} {log : Log} {fresh : ℕ} {ctx : Ctx T E w i}
    {k : ℤ → Prog T E w}
    {unserved : List ℕ} {ready : List (ℕ × ℤ)} {awaits : List (ℕ × ℕ)}
    (hl : Logged prog log fresh (ctx.plug (.awaitIo k)) unserved ready awaits) (r : ℤ)
    (rs : List ℤ) :
    prog.eval (log.results ++ [r] ++ rs) = (ctx.plug (k r)).eval rs := by
  rw [List.append_assoc, hl.direct]
  exact ctx.eval_plug rfl

def Inv (prog : Prog T E i) (s : State T E i) (ph : Phase T E i) : Prop :=
  ∃ unserved ready awaits, At s ph unserved ready awaits ∧
  Logged prog s.log s.fresh ph.rest unserved ready awaits

def toResume (s : State T E i) : ℕ :=
  match s.control with
  | .resumer .syncWait => s.ring.outstanding.length + 1
  | .resumer (.drainCqes head) => s.ring.outstanding.length - head
  | _ => 0

def toReturn (s : State T E i) : ℕ :=
  match s.control with
  | .resumer (.drainCqes head) => s.ring.outstanding.length - head + 1
  | _ => 0

inductive Move (s t : State T E i) : Phase T E i → Phase T E i → Prop
  | call {w v : ι} {ctx : Ctx T E w i} {sub : Prog T E v} {k} :
      Move s t (.running ctx (.awaitTask sub k)) (.running (.caller k ctx) sub)
  | wait {w : ι} {ctx : Ctx T E w i} {k} : Move s t (.running ctx (.awaitIo k)) (.suspended ctx k)
  | refused {w : ι} {ctx : Ctx T E w i} {k} :
      Move s t (.running ctx (.awaitIo k)) (.resumed ctx (k (-ENOMEM)))
  | handBack {w v : ι} {ctx : Ctx T E w i} {k : Except E (T v) → Prog T E w} {p : Prog T E v} {o} :
      p = .ofOutcome o →
      Move s t (.running (.caller k ctx) p) (.handedBack ctx (k o))
  | finish {p : Prog T E i} {o} : p = .ofOutcome o → Move s t (.running .root p) (.finished o)
  | idle {w : ι} {ctx : Ctx T E w i} {k} : Move s t (.suspended ctx k) (.suspended ctx k)
  | search {w : ι} {ctx : Ctx T E w i} {p} : toResume t < toResume s →
      Move s t (.posted ctx p) (.posted ctx p)
  | resume {w : ι} {ctx : Ctx T E w i} {p} : Move s t (.posted ctx p) (.resumed ctx p)
  | goOn {w : ι} {ctx : Ctx T E w i} {p} : Move s t (.resumed ctx p) (.running ctx p)
  | takeOutcome {w : ι} {ctx : Ctx T E w i} {p} : Move s t (.handedBack ctx p) (.running ctx p)
  | turn {o : Except E (T i)} : toReturn t < toReturn s → Move s t (.finished o) (.finished o)
  | giveBack {o : Except E (T i)} : Move s t (.finished o) (.returned o)
  | stay {o : Except E (T i)} : Move s t (.returned o) (.returned o)

def State.waiting (s : State T E i) (h : ℕ) (caller : Resumer) (f : Frame T E)
    (ring : IoRing (Option ℕ)) :
    State T E i :=
  { s.setFrame h (some f) with
    ring := ring, control := .resumer caller, log.prepared := s.log.prepared ++ [h] }

def State.refused (s : State T E i) (h : ℕ) (f : Frame T E) (ring : IoRing (Option ℕ)) :
    State T E i :=
  { s.setFrame h (some f) with ring := ring, log.results := s.log.results ++ [-ENOMEM] }

def Moves (prog : Prog T E i) (entries n : ℕ) (s : State T E i) (ph : Phase T E i) : Prop :=
  ∃ t, s.thread entries n = some t ∧ ∃ ph', Inv prog t ph' ∧ Move s t ph ph'

section thread

variable {prog : Prog T E i} {s : State T E i} {entries n h head : ℕ} {caller : Resumer}
    {f : Frame T E}
  {ctx : Ctx T E w i} {unserved : List ℕ} {ready : List (ℕ × ℤ)} {awaits : List (ℕ × ℕ)}

lemma thread_coroutine (hc : s.control = .coroutine h caller) (hf : s.frames h = some f) :
    s.thread entries n = s.run entries n h caller f := by
  rw [State.thread, hc]
  simp only [hf, Option.bind_some]

lemma run_outcome (s : State T E i) (entries n h : ℕ) (caller : Resumer) (continuation : Option ℕ)
    (o : Except E (T w)) : ∃ exception value,
    s.run entries n h caller ⟨w, .body (.ofOutcome o), continuation, none, none⟩ =
      some (s.finalSuspend h caller ⟨w, .final, continuation, exception, value⟩) ∧
    (⟨w, .final, continuation, exception, value⟩ : Frame T E).result w = some o := by
  cases o with
  | ok value => exact ⟨none, some value, rfl, dif_pos rfl⟩
  | error e => exact ⟨some e, none, rfl, rfl⟩

lemma moves_outcome {o : Except E (T w)} (hinv : Inv prog s (.running ctx (.ofOutcome o)))
    (entries n : ℕ) :
    Moves prog entries n s (.running ctx (.ofOutcome o)) := by
  obtain ⟨_, _, _, hat, hl⟩ := hinv
  cases hat with
  | @running _ h caller continuation _ _ _ hc hf hfresh hstack hslot =>
    obtain ⟨exception, value, hrun, hresult⟩ := run_outcome s entries n h caller continuation o
    refine ⟨_, (thread_coroutine hc hf).trans hrun, ?_⟩
    cases hstack with
    | root =>
      refine ⟨.finished o, ⟨_, _, _, ?_, hl⟩, .finish rfl⟩
      exact .finished rfl (frames_setFrame s 0 _) hresult hslot
    | @caller _ _ _ p continuation awaits k rest hp hlt hstack =>
      have hcaller : (s.setFrame h (some ⟨w, .final, some p, exception, value⟩)).frames p =
          some ⟨_, .awaitTask h k, continuation, none, none⟩ :=
            (frames_setFrame_ne hlt.ne s _).trans hp
      have hcallee : (s.setFrame h (some ⟨w, .final, some p, exception, value⟩)).frames h =
          some ⟨w, .final, some p, exception, value⟩ := frames_setFrame s h _
      refine ⟨.handedBack rest (k o), ⟨[], [], awaits, ?_, ?_⟩, .handBack rfl⟩
      · exact .handedBack rfl hcaller (hlt.trans hfresh) hlt hcallee hresult
          (hstack.setFrame hlt.le _) hslot
      · refine ⟨?_, hl.prepared, hl.posted, ?_, hl.old, hl.nodup⟩
        · exact fun rs => (hl.direct rs).trans (rest.eval_plug_outcome k o rs)
        · apply hl.awaited.trans
          change List.Perm _ (awaits ++ (s.log.handedBack ++ [(h, p)]))
          rw [← List.append_assoc]
          exact (List.perm_append_singleton _ _).symm

lemma moves_awaitIo {k : ℤ → Prog T E w} (hinv : Inv prog s (.running ctx (.awaitIo k)))
    (entries n : ℕ) :
    Moves prog entries n s (.running ctx (.awaitIo k)) := by
  obtain ⟨_, _, awaits, hat, hl⟩ := hinv
  cases hat with
  | @running _ h caller continuation _ _ _ hc hf hfresh hstack hslot =>
    rcases slot_awaitSuspend hslot entries n h with ⟨ring, hgot, hslot⟩ | ⟨ring, hnone, hslot⟩
    · have hrun : s.run entries n h caller ⟨w, .body (.awaitIo k), continuation, none, none⟩ =
          some (s.waiting h caller ⟨w, .awaitIo k 0, continuation, none, none⟩ ring) := by
        simp only [State.run, hgot]
        rfl
      refine ⟨_, (thread_coroutine hc hf).trans hrun, .suspended ctx k, ⟨[h], [], awaits, ?_, ?_⟩,
        .wait⟩
      · exact .suspended rfl (frames_setFrame s h _) hfresh (hstack.setFrame le_rfl _) hslot
      · refine ⟨hl.direct, ?_, hl.posted, hl.awaited, hl.old, hl.nodup⟩
        have hprepared := hl.prepared
        rw [List.append_nil] at hprepared
        exact congrArg (· ++ [h]) hprepared
    · have hrun : s.run entries n h caller ⟨w, .body (.awaitIo k), continuation, none, none⟩ =
          some (s.refused h ⟨w, .awaitIo k (-ENOMEM), continuation, none, none⟩ ring) := by
        simp only [State.run, hnone]
        rfl
      refine ⟨_, (thread_coroutine hc hf).trans hrun, .resumed ctx (k (-ENOMEM)),
        ⟨[], [], awaits, ?_, ?_⟩, .refused⟩
      · exact .resumed hc (frames_setFrame s h _) hfresh (hstack.setFrame le_rfl _) hslot
      · exact ⟨hl.direct_result (-ENOMEM), hl.prepared, hl.posted, hl.awaited, hl.old, hl.nodup⟩

lemma moves_awaitTask {v : ι} {sub : Prog T E v} {k : Except E (T v) → Prog T E w}
    (hinv : Inv prog s (.running ctx (.awaitTask sub k))) (entries n : ℕ) :
    Moves prog entries n s (.running ctx (.awaitTask sub k)) := by
  obtain ⟨_, _, awaits, hat, hl⟩ := hinv
  cases hat with
  | @running _ h caller continuation _ _ _ hc hf hfresh hstack hslot =>
    refine ⟨_, (thread_coroutine hc hf).trans rfl, .running (.caller k ctx) sub,
      ⟨[], [], (s.fresh, h) :: awaits, ?_, ?_⟩, .call⟩
    · have hcaller := frames_setFrame s h (some ⟨w, .awaitTask s.fresh k, continuation, none, none⟩)
      have hcallee :=
        (hstack.setFrame le_rfl (some ⟨w, .awaitTask s.fresh k, continuation, none, none⟩)).setFrame
          hfresh.le
        (some ⟨v, .body sub, some h, none, none⟩)
      refine .running rfl (frames_setFrame _ s.fresh _) (Nat.lt_succ_self _)
        (.caller ?_ hfresh hcallee) hslot
      exact (frames_setFrame_ne hfresh.ne _ _).trans hcaller
    · refine ⟨hl.direct, hl.prepared, hl.posted, ?_, ?_, ?_⟩
      · exact (List.perm_append_singleton _ _).trans (hl.awaited.cons _)
      · intro x hx
        rcases List.mem_append.mp hx with hx | hx
        · exact (hl.old x hx).trans (Nat.lt_succ_self _)
        · rw [List.mem_singleton.mp hx]
          exact Nat.lt_succ_self _
      · change (List.map Prod.fst (s.log.awaited ++ [(s.fresh, h)])).Nodup
        rw [List.map_append, List.map_singleton, List.nodup_append]
        refine ⟨hl.nodup, List.nodup_singleton _, ?_⟩
        intro a ha b hb
        obtain ⟨x, hx, rfl⟩ := List.mem_map.mp ha
        rw [List.mem_singleton.mp hb]
        exact (hl.old x hx).ne

lemma moves_resumed {p : Prog T E w} (hinv : Inv prog s (.resumed ctx p)) (entries n : ℕ) :
    Moves prog entries n s (.resumed ctx p) := by
  obtain ⟨_, _, awaits, hat, hl⟩ := hinv
  cases hat with
  | resumed hc hf hfresh hstack hslot =>
    refine ⟨_, (thread_coroutine hc hf).trans rfl, .running ctx _, ⟨[], [], awaits, ?_, hl⟩, .goOn⟩
    exact .running hc (frames_setFrame s _ _) hfresh (hstack.setFrame le_rfl _) hslot

lemma moves_handedBack {p : Prog T E w} (hinv : Inv prog s (.handedBack ctx p)) (entries n : ℕ) :
    Moves prog entries n s (.handedBack ctx p) := by
  obtain ⟨_, _, awaits, hat, hl⟩ := hinv
  cases hat with
  | @handedBack _ v h coro caller continuation _ f o _ k hc hf hfresh hlt hcoro hresult hstack
      hslot =>
    let t := (s.setFrame coro none).setFrame h (some ⟨w, .body (k o), continuation, none, none⟩)
    have hrun : s.run entries n h caller ⟨w, .awaitTask coro k, continuation, none, none⟩ =
        some t := by
      simp only [State.run, hcoro, Option.bind_eq_bind, Option.bind_some, hresult]
      rfl
    refine ⟨t, (thread_coroutine hc hf).trans hrun, .running ctx (k o), ⟨[], [], awaits, ?_, hl⟩,
      .takeOutcome⟩
    exact .running hc (frames_setFrame _ h _) hfresh ((hstack.setFrame hlt.le _).setFrame le_rfl _)
      hslot

lemma syncWait_turn (hf : s.frames 0 = some f) (hopen : f.point ≠ .final) :
    s.syncWait n = some { s with ring := s.ring.submit n, control := .resumer (.drainCqes 0) } := by
  obtain ⟨type, point, continuation, exception, value⟩ := f
  rw [State.syncWait, hf]
  cases point with
  | final => exact absurd rfl hopen
  | body => rfl
  | awaitIo => rfl
  | awaitTask => rfl

lemma thread_resumer (hc : s.control = .resumer .syncWait) : s.thread entries n = s.syncWait n := by
  rw [State.thread, hc]

lemma thread_drainCqes (hc : s.control = .resumer (.drainCqes head)) :
    s.thread entries n = s.drainCqes head := by
  rw [State.thread, hc]

lemma moves_suspended {k : ℤ → Prog T E w} (hinv : Inv prog s (.suspended ctx k)) (entries n : ℕ) :
    Moves prog entries n s (.suspended ctx k) := by
  obtain ⟨_, _, awaits, hat, hl⟩ := hinv
  cases hat with
  | @suspended _ h caller _ _ _ _ _ hc hf hfresh hstack hslot =>
    cases caller with
    | syncWait =>
      obtain ⟨g, hg, hopen⟩ := hstack.root_open hf nofun
      refine ⟨_, (thread_resumer hc).trans (syncWait_turn hg hopen), .suspended ctx k,
        ⟨[h], [], awaits, ?_, hl⟩, .idle⟩
      exact .suspended rfl hf hfresh hstack (hslot.submit n)
    | drainCqes head =>
      match hcq : s.ring.cq[head]? with
      | none =>
        refine ⟨_, (thread_drainCqes hc).trans (drainCqes_end hcq), .suspended ctx k,
          ⟨[h], [], awaits, ?_, hl⟩, .idle⟩
        exact .suspended rfl hf hfresh hstack hslot.rewind
      | some (none, res) =>
        refine ⟨_, (thread_drainCqes hc).trans (drainCqes_other hcq), .suspended ctx k,
          ⟨[h], [], awaits, ?_, hl⟩, .idle⟩
        exact .suspended rfl hf hfresh hstack (hslot.skip hcq)
      | some (some h', res) =>
        obtain ⟨rest, hrest, -⟩ := hslot.next hcq
        cases hrest

lemma moves_posted {p : Prog T E w} (hinv : Inv prog s (.posted ctx p)) (entries n : ℕ) :
    Moves prog entries n s (.posted ctx p) := by
  obtain ⟨_, _, awaits, hat, hl⟩ := hinv
  cases hat with
  | @posted _ h caller continuation _ result res _ k hc hf hfresh hstack hslot =>
    cases caller with
    | syncWait =>
      obtain ⟨g, hg, hopen⟩ := hstack.root_open hf nofun
      refine ⟨_, (thread_resumer hc).trans (syncWait_turn hg hopen), .posted ctx (k res),
        ⟨[], [(h, res)], awaits, ?_, hl⟩, .search ?_⟩
      · exact .posted rfl hf hfresh hstack (hslot.submit n)
      · simp only [toResume, hc, (IoRing.outstanding_submit (r := s.ring) (n := n)).length_eq]
        omega
    | drainCqes head =>
      match hcq : s.ring.cq[head]? with
      | none =>
        have hready := hslot.ready_nil hcq
        cases hready
      | some (none, other) =>
        have hlt : head < s.ring.cq.length := (List.getElem?_eq_some_iff.mp hcq).1
        refine ⟨_, (thread_drainCqes hc).trans (drainCqes_other hcq), .posted ctx (k res),
          ⟨[], [(h, res)], awaits, ?_, hl⟩, .search ?_⟩
        · exact .posted rfl hf hfresh hstack (hslot.skip hcq)
        · simp only [toResume, hc, IoRing.length_outstanding]
          omega
      | some (some h', res') =>
        obtain ⟨rest, hrest, hslot⟩ := hslot.next hcq
        cases hrest
        let f : Frame T E := ⟨w, .awaitIo k res, continuation, none, none⟩
        let t : State T E i := { s.setFrame h (some f) with
            control := .coroutine h (.drainCqes (head + 1)),
            log.resumed := s.log.resumed ++ [(h, res)] }
        have ht : s.drainCqes head = some t := by
          simp only [State.drainCqes, hcq, State.resumeFromCqe, hf]
          rfl
        refine ⟨t, (thread_drainCqes hc).trans ht, .resumed ctx (k res), ⟨[], [], awaits, ?_, ?_⟩,
          .resume⟩
        · exact .resumed rfl (frames_setFrame s h _) hfresh (hstack.setFrame le_rfl _) hslot
        · refine ⟨hl.direct, hl.prepared, ?_, hl.awaited, hl.old, hl.nodup⟩
          rw [List.append_nil]
          exact hl.posted

lemma moves_finished {o : Except E (T i)} (hinv : Inv prog s (.finished o)) (entries n : ℕ) :
    Moves prog entries n s (.finished o) := by
  obtain ⟨_, _, _, hat, hl⟩ := hinv
  cases hat with
  | @finished caller exception value _ hc hf hresult hslot =>
    cases caller with
    | syncWait =>
      let t : State T E i := { s with control := .returned o }
      have ht : s.syncWait n = some t := by
        simp only [State.syncWait, hf, hresult]
        rfl
      exact ⟨t, (thread_resumer hc).trans ht, .returned o, ⟨[], [], [], .returned rfl hslot, hl⟩,
        .giveBack⟩
    | drainCqes head =>
      match hcq : s.ring.cq[head]? with
      | none =>
        refine ⟨_, (thread_drainCqes hc).trans (drainCqes_end hcq), .finished o,
          ⟨[], [], [], ?_, hl⟩, .turn ?_⟩
        · exact .finished rfl hf hresult hslot.rewind
        · simp only [toReturn, hc]
          omega
      | some (none, res) =>
        have hlt : head < s.ring.cq.length := (List.getElem?_eq_some_iff.mp hcq).1
        refine ⟨_, (thread_drainCqes hc).trans (drainCqes_other hcq), .finished o,
          ⟨[], [], [], ?_, hl⟩, .turn ?_⟩
        · exact .finished rfl hf hresult (hslot.skip hcq)
        · simp only [toReturn, hc, IoRing.length_outstanding]
          omega
      | some (some h, res) =>
        obtain ⟨rest, hrest, -⟩ := hslot.next hcq
        cases hrest

theorem thread_moves {ph : Phase T E i} (hinv : Inv prog s ph) (entries n : ℕ) :
    Moves prog entries n s ph := by
  cases ph with
  | running ctx p =>
    cases p with
    | coReturn value => exact moves_outcome (o := .ok value) hinv entries n
    | throw e => exact moves_outcome (o := .error e) hinv entries n
    | awaitIo k => exact moves_awaitIo hinv entries n
    | awaitTask sub k => exact moves_awaitTask hinv entries n
  | suspended ctx k => exact moves_suspended hinv entries n
  | posted ctx p => exact moves_posted hinv entries n
  | resumed ctx p => exact moves_resumed hinv entries n
  | handedBack ctx p => exact moves_handedBack hinv entries n
  | finished o => exact moves_finished hinv entries n
  | returned o =>
    refine ⟨s, ?_, .returned o, hinv, .stay⟩
    obtain ⟨_, _, _, hat, -⟩ := hinv
    cases hat with
    | returned hc => rw [State.thread, hc]

end thread

inductive Posting (s t : State T E i) : Option ℕ → ℤ → Phase T E i → Phase T E i → Prop
  | other {ph : Phase T E i} {res : ℤ} : toResume t = toResume s → toReturn t = toReturn s →
      Posting s t none res ph ph
  | own {h : ℕ} {res : ℤ} {w : ι} {ctx : Ctx T E w i} {k : ℤ → Prog T E w} :
      Posting s t (some h) res (.suspended ctx k) (.posted ctx (k res))

section kernel

variable {prog : Prog T E i} {s t : State T E i} {entries h : ℕ} {res : ℤ} {ph : Phase T E i}
    {as : List Action}

lemma inv_post_other (hinv : Inv prog s ph) (hmem : none ∈ s.ring.inKernel) (res : ℤ) :
    Inv prog (s.post none res) ph := by
  obtain ⟨_, _, _, hat, hl⟩ := hinv
  refine ⟨_, _, _, ?_, hl⟩
  cases hat with
  | running hc hf hfresh hstack hslot =>
    exact .running hc hf hfresh hstack (hslot.complete_other hmem res)
  | suspended hc hf hfresh hstack hslot =>
    exact .suspended hc hf hfresh hstack (hslot.complete_other hmem res)
  | posted hc hf hfresh hstack hslot =>
    exact .posted hc hf hfresh hstack (hslot.complete_other hmem res)
  | resumed hc hf hfresh hstack hslot =>
    exact .resumed hc hf hfresh hstack (hslot.complete_other hmem res)
  | handedBack hc hf hfresh hlt hcoro hresult hstack hslot =>
    exact .handedBack hc hf hfresh hlt hcoro hresult hstack (hslot.complete_other hmem res)
  | finished hc hf hresult hslot => exact .finished hc hf hresult (hslot.complete_other hmem res)
  | returned hc hslot => exact .returned hc (hslot.complete_other hmem res)

lemma Slot.no_completion {r : IoRing (Option ℕ)} {head : ℕ} {ready : List (ℕ × ℤ)}
    (hs : Slot r head [] ready)
    (hmem : some h ∈ r.inKernel) : False := by
  obtain ⟨rest, hperm, -⟩ := hs.complete hmem 0
  exact absurd hperm.nil_eq (List.cons_ne_nil h rest).symm

lemma inv_post_own (hinv : Inv prog s ph) (hmem : some h ∈ s.ring.inKernel) (res : ℤ) :
    ∃ ph', Inv prog (s.post (some h) res) ph' ∧
    Posting s (s.post (some h) res) (some h) res ph ph' := by
  obtain ⟨_, _, awaits, hat, hl⟩ := hinv
  cases hat with
  | running _ _ _ _ hslot => exact (hslot.no_completion hmem).elim
  | posted _ _ _ _ hslot => exact (hslot.no_completion hmem).elim
  | resumed _ _ _ _ hslot => exact (hslot.no_completion hmem).elim
  | handedBack _ _ _ _ _ _ _ hslot => exact (hslot.no_completion hmem).elim
  | finished _ _ _ hslot => exact (hslot.no_completion hmem).elim
  | returned _ hslot => exact (hslot.no_completion hmem).elim
  | @suspended _ h' caller _ _ _ ctx k hc hf hfresh hstack hslot =>
    obtain ⟨rest, hperm, hslot⟩ := hslot.complete hmem res
    have heq := List.perm_singleton.mp hperm.symm
    cases heq
    refine ⟨.posted ctx (k res), ⟨[], [(h, res)], awaits, ?_, ?_⟩, .own⟩
    · exact .posted hc hf hfresh hstack hslot
    · refine ⟨hl.direct_result res, ?_, ?_, hl.awaited, hl.old, hl.nodup⟩
      · have hmap : (s.log.posted ++ [(h, res)]).map Prod.fst = s.log.posted.map Prod.fst ++ [h] :=
          List.map_append
        rw [List.append_nil]
        exact hl.prepared.trans hmap.symm
      · have hposted := hl.posted
        rw [List.append_nil] at hposted
        exact congrArg (· ++ [(h, res)]) hposted

lemma complete_posting {a : Option ℕ} (hinv : Inv prog s ph)
    (hs : step entries s (.complete a res) = some t) :
    ∃ ph', Inv prog t ph' ∧ Posting s t a res ph ph' := by
  simp only [step, Option.ite_none_right_eq_some, Option.some.injEq] at hs
  obtain ⟨hmem, rfl⟩ := hs
  cases a with
  | some h => exact inv_post_own hinv hmem res
  | none =>
    have hlen := length_post hmem res
    refine ⟨ph, inv_post_other hinv hmem res, .other ?_ ?_⟩
    · simp only [toResume, hlen]
      rfl
    · simp only [toReturn, hlen]
      rfl

/-- The operations in the ring are not those of coroutines. -/
def Dedicated (ring : IoRing (Option ℕ)) : Prop := ∀ a ∈ ring.outstanding, a = none

instance (ring : IoRing (Option ℕ)) : Decidable (Dedicated ring) :=
  inferInstanceAs (Decidable (∀ a ∈ _, _))

lemma Dedicated.slot {ring : IoRing (Option ℕ)} (hring : Dedicated ring) : Slot ring 0 [] [] := by
  refine ⟨Nat.zero_le _, ?_, ?_⟩
  · rw [List.perm_nil, List.filterMap_eq_nil_iff]
    intro a ha
    exact hring a (List.mem_append_left _ ha)
  · rw [List.drop_zero, List.filterMap_eq_nil_iff]
    intro c hc
    rw [hring c.1 (List.mem_append_right _ (List.mem_map_of_mem hc))]
    rfl

lemma inv_start (prog : Prog T E i) {ring : IoRing (Option ℕ)} (hring : Dedicated ring) :
    Inv prog (start prog ring) (.running .root prog) := by
  have hroot : (start prog ring).frames 0 = some ⟨i, .body prog, none, none, none⟩ := by
    simp only [start, Function.update_self]
  refine ⟨[], [], [], ?_, ?_⟩
  · exact .running rfl hroot Nat.zero_lt_one .root hring.slot
  · exact ⟨fun _ => rfl, rfl, rfl, .nil, nofun, List.nodup_nil⟩

lemma inv_step {a : Action} (hinv : ∃ ph, Inv prog s ph) (hs : step entries s a = some t) :
    ∃ ph, Inv prog t ph := by
  obtain ⟨ph, hinv⟩ := hinv
  cases a with
  | thread n =>
    obtain ⟨u, hu, ph', hinv', -⟩ := thread_moves hinv entries n
    cases hu.symm.trans hs
    exact ⟨ph', hinv'⟩
  | complete a res =>
    obtain ⟨ph', hinv', -⟩ := complete_posting hinv hs
    exact ⟨ph', hinv'⟩

lemma inv_run {ring : IoRing (Option ℕ)} (hring : Dedicated ring)
    (h : Run (step entries) Any (start prog ring) as s) :
    ∃ ph, Inv prog s ph := by
  induction h with
  | nil => exact ⟨_, inv_start prog hring⟩
  | snoc _ _ hs ih => exact inv_step ih hs

end kernel

end KimRpc.Coroutine
