import KimRpc.Discovery.Registration
import KimRpc.Library.Rotation

/-! Threads that take the instances of a method in turn, from tables that the watch
callbacks change meanwhile. -/

namespace KimRpc.Discovery.RoundRobin

open Library.Rotation Library.Runs Wire

structure MethodEntry where
  instances : List Bytes
  rr : UInt64 := 0
  startRev : ℤ

/-- What a call returned; none is no element of the vector. -/
structure Returned where
  thread : ℕ
  methodPath : Bytes
  size : ℕ
  idx : ℕ
  hostData : Option Bytes
  deriving DecidableEq

structure Cache where
  etcdOk : Option Bool := none
  entries : Bytes → Option MethodEntry := fun _ => none
  found : ℕ → Option Bytes := fun _ => none
  returned : List Returned := []
  failed : List (ℕ × Bytes) := []

inductive Action where
  | lookUp (thread : ℕ) (methodPath : Bytes) (started : Bool) (resp : Bytes)
  | pick (thread : ℕ)
  | event (methodPath : Bytes) (ev : WatchEvent)

namespace MethodEntry

def idx (e : MethodEntry) : ℕ := e.rr.toNat % e.instances.length

def call (e : MethodEntry) (thread : ℕ) (methodPath : Bytes) : Returned :=
  ⟨thread, methodPath, e.instances.length, e.idx, e.instances[e.idx]?⟩

end MethodEntry

namespace Cache

def fail (s : Cache) (thread : ℕ) (error : Bytes) :
    Cache := { s with failed := s.failed ++ [(thread, error)] }

def find (s : Cache) (thread : ℕ) (methodPath : Bytes) : Cache :=
  { s with found := Function.update s.found thread (some methodPath) }

def setEntry (s : Cache) (methodPath : Bytes) (e : MethodEntry) : Cache :=
  { s with entries := Function.update s.entries methodPath (some e) }

def ensureEtcd (s : Cache) (started : Bool) :
    Cache := { s with etcdOk := some (s.etcdOk.getD started) }

/-- `GetRpcAddress` up to the end of the section of `g_mtx`. -/
def lookUp (parse : Bytes → Option Json) (s : Cache) (thread : ℕ) (methodPath resp : Bytes) :
    Cache :=
  if s.etcdOk ≠ some true then s.fail thread (text "etcd not reachable")
  else
    match s.entries methodPath with
    | some _ => s.find thread methodPath
    | none =>
      match seedEntry parse methodPath resp with
      | none => s.fail thread (methodPath ++ text " etcd range failed")
      | some (instances, rev) =>
        (s.setEntry methodPath { instances := instances, startRev := rev + 1 }).find
          thread methodPath

/-- The rest of `GetRpcAddress`, in one section of the mutex of the entry. -/
def pick (s : Cache) (thread : ℕ) (methodPath : Bytes) (e : MethodEntry) : Cache :=
  let s := { s with found := Function.update s.found thread none }
  if e.instances = [] then s.fail thread (methodPath ++ text " has no available instance")
  else { s.setEntry methodPath { e with rr := e.rr + 1 } with
      returned := s.returned ++ [e.call thread methodPath] }

end Cache

def step (parse : Bytes → Option Json) (s : Cache) : Action → Option Cache
  | .lookUp thread methodPath started resp =>
    if s.found thread = none then
      some ((s.ensureEtcd started).lookUp parse thread methodPath resp)
    else none
  | .pick thread => (s.found thread).bind (fun p => (s.entries p).map (s.pick thread p))
  | .event p ev => (s.entries p).map (fun e =>
      s.setEntry p { e with instances := Instances.onEvent (p ++ [47]) e.instances ev })

def Unchanged (methodPath : Bytes) (s : Cache) : Action → Prop
  | .event p ev =>
    p = methodPath → ∀ e ∈ s.entries p, Instances.onEvent (p ++ [47]) e.instances ev = e.instances
  | .lookUp _ _ _ _ => True
  | .pick _ => True

instance (methodPath : Bytes) (s : Cache) : ∀ a, Decidable (Unchanged methodPath s a)
  | .event p ev => inferInstanceAs (Decidable (p = methodPath →
      ∀ e ∈ s.entries p, Instances.onEvent (p ++ [47]) e.instances ev = e.instances))
  | .lookUp _ _ _ _ => .isTrue trivial
  | .pick _ => .isTrue trivial

def Cache.since (t s : Cache) : List Returned := t.returned.drop s.returned.length

def ofMethod (methodPath : Bytes) (calls : List Returned) : List Returned :=
  calls.filter (fun r => r.methodPath = methodPath)

/-- The calls take the instances in turn. The instances are the elements of the list, by their
indices, and by their addresses when none is there twice. -/
structure Fair (instances : List Bytes) (calls : List Returned) : Prop where
  host : ∀ r ∈ calls, r.idx < instances.length ∧ r.hostData = instances[r.idx]?
  share : ∀ i < instances.length, (calls.map Returned.idx).count i =
      calls.length / instances.length ∨
    (calls.map Returned.idx).count i = calls.length ⌈/⌉ instances.length
  hosts : instances.Nodup → ∀ x ∈ instances,
    (calls.map Returned.hostData).count (some x) = calls.length / instances.length ∨
      (calls.map Returned.hostData).count (some x) = calls.length ⌈/⌉ instances.length
  each : ∀ k, k + instances.length ≤ calls.length →
    (((calls.drop k).take instances.length).map Returned.idx).Perm (List.range instances.length) ∧
      (((calls.drop k).take instances.length).map Returned.hostData).Perm (instances.map some)

variable {parse : Bytes → Option Json} {s t : Cache} {a : Action} {e : MethodEntry} {p : Bytes}

section steps

lemma setEntry_same : (s.setEntry p e).entries p = some e := Function.update_self ..

lemma setEntry_other {q : Bytes} (h : p ≠ q) :
    (s.setEntry q e).entries p = s.entries p := Function.update_of_ne h ..

lemma MethodEntry.idx_lt (h : e.instances ≠ []) : e.idx < e.instances.length :=
  Nat.mod_lt _ (List.length_pos_iff.mpr h)

inductive Does (p : Bytes) (e : MethodEntry) (s t : Cache) (a : Action) : Prop
  | other (entry : t.entries p = some e) (returned : ofMethod p t.returned = ofMethod p s.returned)
  | event (ev : WatchEvent) (action : a = .event p ev)
      (entry : t.entries p = some { e with
        instances := Instances.onEvent (p ++ [47]) e.instances ev })
      (returned : ofMethod p t.returned = ofMethod p s.returned)
  | call (thread : ℕ) (some_instance : e.instances ≠ []) (entry : t.entries p = some { e with
      rr := e.rr + 1 })
      (returned : ofMethod p t.returned = ofMethod p s.returned ++ [e.call thread p])

lemma lookUp_returned (thread : ℕ) (resp : Bytes) :
    (s.lookUp parse thread p resp).returned = s.returned := by
  rw [Cache.lookUp]
  split_ifs with hok
  · rfl
  · cases s.entries p with
    | some _ => rfl
    | none =>
      cases seedEntry parse p resp with
      | none => rfl
      | some _ => rfl

lemma lookUp_entry {q : Bytes} (thread : ℕ) (resp : Bytes) (he : s.entries p = some e) :
    (s.lookUp parse thread q resp).entries p = some e := by
  rw [Cache.lookUp]
  split_ifs with hok
  · exact he
  · cases hq : s.entries q with
    | some _ => exact he
    | none =>
      have hne : p ≠ q := by
        rintro rfl
        rw [he] at hq
        cases hq
      cases seedEntry parse q resp with
      | none => exact he
      | some _ =>
        exact (setEntry_other hne).trans he

lemma pick_cases (s : Cache) (thread : ℕ) (q : Bytes) (e' : MethodEntry) :
    e'.instances = [] ∧ (s.pick thread q e').entries = s.entries ∧
    (s.pick thread q e').returned = s.returned ∨
      e'.instances ≠ [] ∧
        (s.pick thread q e').entries = Function.update s.entries q (some { e' with
          rr := e'.rr + 1 }) ∧
        (s.pick thread q e').returned = s.returned ++ [e'.call thread q] := by
  by_cases h : e'.instances = []
  · exact .inl ⟨h, by simp [Cache.pick, h, Cache.fail], by simp [Cache.pick, h, Cache.fail]⟩
  · exact .inr ⟨h, by simp [Cache.pick, h, Cache.setEntry], by simp [Cache.pick, h]⟩

lemma step_does (he : s.entries p = some e) (h : step parse s a = some t) : Does p e s t a := by
  cases a with
  | lookUp thread q started resp =>
    rw [step, Option.ite_none_right_eq_some] at h
    obtain ⟨-, h⟩ := h
    cases h
    exact .other (lookUp_entry _ _ he) (congrArg _ (lookUp_returned _ _))
  | pick thread =>
    obtain ⟨q, -, h⟩ := Option.bind_eq_some_iff.mp h
    obtain ⟨e', he', rfl⟩ := Option.map_eq_some_iff.mp h
    rcases pick_cases s thread q e' with ⟨-, hentries, hreturned⟩ | ⟨hne, hentries, hreturned⟩
    · exact .other (hentries ▸ he) (congrArg _ hreturned)
    · by_cases hq : q = p
      · subst hq
        cases Option.some.inj (he.symm.trans he')
        exact .call thread hne (by rw [hentries, Function.update_self])
          (by simp [hreturned, ofMethod, MethodEntry.call])
      · exact .other (by rw [hentries, Function.update_of_ne (Ne.symm hq), he])
          (by simp [hreturned, ofMethod, MethodEntry.call, hq])
  | event q ev =>
    obtain ⟨e', he', rfl⟩ := Option.map_eq_some_iff.mp h
    by_cases hq : q = p
    · subst hq
      cases Option.some.inj (he.symm.trans he')
      exact .event ev rfl setEntry_same rfl
    · exact .other ((setEntry_other (Ne.symm hq)).trans he) rfl

lemma new_entry (hnone : s.entries p = none) (h : step parse s a = some t)
    (he : t.entries p = some e) :
    ∃ thread started resp rev, a = .lookUp thread p started resp ∧
    seedEntry parse p resp = some (e.instances, rev) := by
  cases a with
  | lookUp thread q started resp =>
    rw [step, Option.ite_none_right_eq_some] at h
    obtain ⟨-, h⟩ := h
    cases h
    rw [Cache.lookUp] at he
    split_ifs at he with hok
    · exact absurd (he.symm.trans hnone) (by simp)
    · cases hq : (s.ensureEtcd started).entries q with
      | some _ =>
        rw [hq] at he
        exact absurd (he.symm.trans hnone) (by simp)
      | none =>
        cases hseed : seedEntry parse q resp with
        | none =>
          rw [hq, hseed] at he
          exact absurd (he.symm.trans hnone) (by simp)
        | some r =>
          rw [hq, hseed] at he
          by_cases hp : p = q
          · subst hp
            cases Option.some.inj (setEntry_same.symm.trans he)
            exact ⟨thread, started, resp, r.2, rfl, hseed⟩
          · exact absurd ((setEntry_other hp).symm.trans he) (by simp [Cache.ensureEtcd, hnone])
  | pick thread =>
    obtain ⟨q, -, h⟩ := Option.bind_eq_some_iff.mp h
    obtain ⟨e', he', rfl⟩ := Option.map_eq_some_iff.mp h
    rcases pick_cases s thread q e' with ⟨-, hentries, -⟩ | ⟨-, hentries, -⟩
    · rw [hentries, hnone] at he
      cases he
    · by_cases hp : p = q
      · subst hp
        rw [hnone] at he'
        cases he'
      · rw [hentries, Function.update_of_ne hp, hnone] at he
        cases he
  | event q ev =>
    obtain ⟨e', he', rfl⟩ := Option.map_eq_some_iff.mp h
    by_cases hp : p = q
    · subst hp
      rw [hnone] at he'
      cases he'
    · rw [setEntry_other hp, hnone] at he
      cases he

lemma step_returned (h : step parse s a = some t) :
    t.returned = s.returned ∨ ∃ r, t.returned = s.returned ++ [r] ∧ r.idx < r.size ∧
    r.hostData.isSome := by
  cases a with
  | lookUp thread q started resp =>
    rw [step, Option.ite_none_right_eq_some] at h
    obtain ⟨-, h⟩ := h
    cases h
    exact .inl (lookUp_returned _ _)
  | pick thread =>
    obtain ⟨q, -, h⟩ := Option.bind_eq_some_iff.mp h
    obtain ⟨e', -, rfl⟩ := Option.map_eq_some_iff.mp h
    rcases pick_cases s thread q e' with ⟨-, -, hreturned⟩ | ⟨hne, -, hreturned⟩
    · exact .inl hreturned
    · have hlt := MethodEntry.idx_lt hne
      exact .inr ⟨_, hreturned, hlt, by simp [MethodEntry.call, hlt]⟩
  | event q ev =>
    obtain ⟨e', -, rfl⟩ := Option.map_eq_some_iff.mp h
    exact .inl rfl

end steps

section runs

variable {as : List Action} {calls : List Returned}

structure Drawn (p : Bytes) (e : MethodEntry) (t : Cache) (calls : List Returned) : Prop where
  entry : ∃ e', t.entries p = some e' ∧ e'.instances = e.instances ∧
    e'.rr.toNat = (e.rr.toNat + calls.length) % 2 ^ 64
  idxs : calls.map Returned.idx =
    (List.range calls.length).map (fun k => (e.rr.toNat + k) % 2 ^ 64 % e.instances.length)
  host : ∀ r ∈ calls, r.hostData = e.instances[r.idx]?

lemma drawn_nil (he : t.entries p = some e) : Drawn p e t [] where
  entry := ⟨e, he, rfl, (Nat.mod_eq_of_lt e.rr.toNat_lt).symm⟩
  idxs := rfl
  host _ hr := by cases hr

lemma Drawn.step {u : Cache} (h : Drawn p e t calls) (hok : Unchanged p t a)
    (hs : step parse t a = some u) :
    ∃ new, ofMethod p u.returned = ofMethod p t.returned ++ new ∧ Drawn p e u (calls ++ new) := by
  obtain ⟨e', he', hinstances, hrr⟩ := h.entry
  cases step_does he' hs with
  | other entry returned =>
    refine ⟨[], by simp [returned], ?_⟩
    rw [List.append_nil]
    exact { h with entry := ⟨e', entry, hinstances, hrr⟩ }
  | event ev action entry returned =>
    subst action
    refine ⟨[], by simp [returned], ?_⟩
    rw [List.append_nil]
    rw [hok rfl e' he'] at entry
    exact { h with entry := ⟨e', entry, hinstances, hrr⟩ }
  | call thread some_instance entry returned =>
    refine ⟨_, returned, ⟨_, entry, hinstances, ?_⟩, ?_, ?_⟩
    · rw [UInt64.toNat_add, hrr, List.length_append]
      simp [Nat.add_assoc]
    · rw [List.map_append, h.idxs, List.length_append, List.length_singleton, List.range_succ,
        List.map_append]
      simp [MethodEntry.call, MethodEntry.idx, hinstances, hrr]
    · intro r hr
      rcases List.mem_append.mp hr with hr | hr
      · exact h.host r hr
      · rw [List.mem_singleton.mp hr, ← hinstances]
        rfl

lemma drawn_run (he : s.entries p = some e) (h : Run (step parse) (Unchanged p) s as t) :
    ∃ calls, ofMethod p t.returned = ofMethod p s.returned ++ calls ∧ Drawn p e t calls := by
  induction h with
  | nil => exact ⟨[], (List.append_nil _).symm, drawn_nil he⟩
  | snoc _ hok hs ih =>
    obtain ⟨calls, hcalls, hdrawn⟩ := ih
    obtain ⟨new, hnew, hdrawn⟩ := hdrawn.step hok hs
    exact ⟨calls ++ new, by rw [hnew, hcalls, List.append_assoc], hdrawn⟩

lemma returned_run (h : Run (step parse) Any s as t) :
    ∃ new, t.returned = s.returned ++ new ∧ ∀ r ∈ new, r.idx < r.size ∧ r.hostData.isSome := by
  induction h with
  | nil => exact ⟨[], (List.append_nil _).symm, fun _ hr => by cases hr⟩
  | snoc _ _ hs ih =>
    obtain ⟨new, hnew, hwithin⟩ := ih
    rcases step_returned hs with hsame | ⟨r, hr, hlt, hsome⟩
    · exact ⟨new, hsame.trans hnew, hwithin⟩
    · refine ⟨new ++ [r], by rw [hr, hnew, List.append_assoc], ?_⟩
      exact List.forall_mem_append.mpr ⟨hwithin, List.forall_mem_singleton.mpr ⟨hlt, hsome⟩⟩

lemma since_eq {new : List Returned} (h : t.returned = s.returned ++ new) : t.since s = new := by
  rw [Cache.since, h, List.drop_left]

lemma map_getElem?_range (xs : List Bytes) :
    (List.range xs.length).map (fun i => xs[i]?) = xs.map some := by
  apply List.ext_getElem
  · simp
  · intro i hi _
    have hlt : i < xs.length := by simpa using hi
    simp [hlt]

lemma count_hostData {xs : List Bytes} (hnodup : xs.Nodup)
    (hhost : ∀ r ∈ calls, r.hostData = xs[r.idx]?) {i : ℕ}
    (hi : i < xs.length) : (calls.map Returned.hostData).count (some xs[i]) =
    (calls.map Returned.idx).count i := by
  rw [List.count, List.count, List.countP_map, List.countP_map]
  apply List.countP_congr
  intro r hr
  have hiff : r.hostData = some xs[i] ↔ r.idx = i := by
    rw [hhost r hr, List.getElem?_eq_some_iff]
    constructor
    · rintro ⟨hlt, heq⟩
      exact (hnodup.getElem_inj_iff).mp heq
    · rintro rfl
      exact ⟨hi, rfl⟩
  simpa using hiff

lemma Drawn.fair (h : Drawn p e t calls) (hne : e.instances ≠ [])
    (hwrap : e.rr.toNat + calls.length ≤ 2 ^ 64) :
    Fair e.instances calls := by
  have hlen := List.length_pos_iff.mpr hne
  have hturns : calls.map Returned.idx = turns e.instances.length e.rr.toNat calls.length := by
    rw [h.idxs]
    apply List.map_congr_left
    intro k hk
    rw [List.mem_range] at hk
    have hlt : e.rr.toNat + k < 2 ^ 64 := by omega
    rw [Nat.mod_eq_of_lt hlt]
  have hshare : ∀ i < e.instances.length, (calls.map Returned.idx).count i =
      calls.length / e.instances.length ∨
      (calls.map Returned.idx).count i = calls.length ⌈/⌉ e.instances.length := by
    intro i hi
    rw [hturns]
    exact count_turns hi
  refine ⟨?_, hshare, ?_, ?_⟩
  · intro r hr
    have hidx : r.idx ∈ turns e.instances.length e.rr.toNat calls.length :=
      hturns ▸ List.mem_map_of_mem hr
    exact ⟨mem_turns_lt hlen hidx, h.host r hr⟩
  · intro hnodup x hx
    obtain ⟨i, hi, rfl⟩ := List.mem_iff_getElem.mp hx
    rw [count_hostData hnodup h.host hi]
    exact hshare i hi
  · intro k hk
    have hperm : (((calls.drop k).take e.instances.length).map Returned.idx).Perm
        (List.range e.instances.length) := by
      rw [List.map_take, List.map_drop, hturns, turns_window hk]
      exact turns_perm
    refine ⟨hperm, ?_⟩
    have hhosts : ((calls.drop k).take e.instances.length).map Returned.hostData =
        (((calls.drop k).take e.instances.length).map Returned.idx).map
        (fun i => e.instances[i]?) := by
      rw [List.map_map]
      apply List.map_congr_left
      intro r hr
      exact h.host r (List.mem_of_mem_drop (List.mem_of_mem_take hr))
    rw [hhosts, ← map_getElem?_range]
    exact hperm.map _

def Distinct (parse : Bytes → Option Json) (_ : Cache) (a : Action) : Prop :=
  ∀ thread q started resp, a = .lookUp thread q started resp →
  ∀ r ∈ seedEntry parse q resp, r.1.Nodup

def NoDuplicates (p : Bytes) (s : Cache) : Prop := ∀ e ∈ s.entries p, e.instances.Nodup

lemma NoDuplicates.step (h : NoDuplicates p s) (hok : Distinct parse s a)
    (hs : step parse s a = some t) :
    NoDuplicates p t := by
  intro e he
  cases hentry : s.entries p with
  | some e' =>
    have hnodup := h e' hentry
    cases step_does hentry hs with
    | other entry =>
      cases Option.some.inj (entry.symm.trans he)
      exact hnodup
    | event ev _ entry =>
      cases Option.some.inj (entry.symm.trans he)
      exact Instances.nodup_onEvent hnodup
    | call thread _ entry =>
      cases Option.some.inj (entry.symm.trans he)
      exact hnodup
  | none =>
    obtain ⟨thread, started, resp, rev, rfl, hseed⟩ := new_entry hentry hs he
    exact hok thread p started resp rfl _ hseed

lemma nodup_run (h : Run (step parse) (Distinct parse) {} as t) : NoDuplicates p t := by
  refine h.invariant (fun e he => ?_) (fun _ _ _ hu hok hs => hu.step hok hs)
  cases he

/-- Where no range answer has an address twice, the addresses are drawn evenly themselves. -/
theorem addresses_shared {bs : List Action} (h : Run (step parse) (Distinct parse) {} bs s)
    (hrun : Run (step parse) (Unchanged p) s as t) (he : s.entries p = some e)
    (hne : e.instances ≠ []) : ∃ calls, ofMethod p t.returned = ofMethod p s.returned ++ calls ∧
    (e.rr.toNat + calls.length ≤ 2 ^ 64 → ∀ x ∈ e.instances,
      (calls.map Returned.hostData).count (some x) = calls.length / e.instances.length ∨
        (calls.map Returned.hostData).count (some x) = calls.length ⌈/⌉ e.instances.length) := by
  obtain ⟨calls, hcalls, hdrawn⟩ := drawn_run he hrun
  exact ⟨calls, hcalls, fun hwrap => (hdrawn.fair hne hwrap).hosts (nodup_run h e he)⟩

end runs

/-- The calls of all threads share the instances evenly while the list is unchanged, and take them
from within the list whatever the watch does. -/
theorem round_robin_fair (parse : Bytes → Option Json) {s t : Cache} {as : List Action}
    (h : Run (step parse) Any s as t) :
    (∀ r ∈ t.since s, r.idx < r.size ∧ r.hostData.isSome) ∧
      ∀ p e, Run (step parse) (Unchanged p) s as t → s.entries p = some e → e.instances ≠ [] →
        e.rr.toNat + (ofMethod p (t.since s)).length ≤ 2 ^ 64 →
        Fair e.instances (ofMethod p (t.since s)) := by
  obtain ⟨new, hnew, hwithin⟩ := returned_run h
  rw [since_eq hnew]
  refine ⟨hwithin, fun p e hrun he hne hwrap => ?_⟩
  obtain ⟨calls, hcalls, hdrawn⟩ := drawn_run he hrun
  have heq : ofMethod p new = calls := by
    rw [hnew, ofMethod, List.filter_append] at hcalls
    exact List.append_cancel_left hcalls
  rw [heq] at hwrap ⊢
  exact hdrawn.fair hne hwrap

def samplePair : List Bytes := [text "10.0.0.1:8000", text "10.0.0.2:8000"]

def sampleCache : Cache where
  etcdOk := some true
  entries := fun p =>
    if p = text "/U/L" then some { instances := samplePair, rr := 7, startRev := 2 } else none

def sampleActions : List Action :=
  [.lookUp 1 (text "/U/L") true [], .lookUp 2 (text "/U/L") true [], .pick 2,
    .event (text "/U/L") ⟨.put, text "/U/L/10.0.0.1:8000", []⟩, .pick 1,
    .lookUp 2 (text "/U/L") true [], .pick 2]

theorem round_robin_fair_sample :
    ∃ t, exec (step (fun _ => none)) sampleCache sampleActions = some t ∧
    (ofMethod (text "/U/L") (t.since sampleCache)).length = 3 ∧
      (∀ r ∈ t.since sampleCache, r.idx < r.size ∧ r.hostData.isSome) ∧
        Fair samplePair (ofMethod (text "/U/L") (t.since sampleCache)) := by
  obtain ⟨t, hexec, hlen⟩ :=
    exec_any (show (exec (step (fun _ => none)) sampleCache sampleActions).any
    (fun t => decide ((ofMethod (text "/U/L") (t.since sampleCache)).length = 3)) = true by
      decide +kernel)
  have hlen := of_decide_eq_true hlen
  obtain ⟨hwithin, hfair⟩ := round_robin_fair (fun _ => none) (.of_exec hexec (by decide +kernel))
  refine ⟨t, hexec, hlen, hwithin, ?_⟩
  refine hfair (text "/U/L") { instances := samplePair, rr := 7, startRev := 2 } (.of_exec hexec ?_)
    rfl (by decide) ?_
  · decide +kernel
  · rw [hlen]
    decide

end KimRpc.Discovery.RoundRobin
