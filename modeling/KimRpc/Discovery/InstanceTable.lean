import KimRpc.Discovery.Store
import KimRpc.Library.Runs

/-! The table of a method's instances: filled from a range answer, then kept by
the watch callback, whose watch may start again at a revision it has seen. -/

namespace KimRpc.Discovery.Instances

open Library.Replay Library.Runs Wire

def seed (pre : Bytes) (kvs : List KeyValue) : List Bytes :=
  kvs.filterMap (fun kv =>
    if kv.key.length > pre.length then some (kv.key.drop pre.length) else none)

def onEvent (pre : Bytes) (instances : List Bytes) (ev : WatchEvent) : List Bytes :=
  let addr := ev.key.drop pre.length
  if ev.key.length ≤ pre.length then instances
  else match ev.type with
    | .put => if addr ∈ instances then instances else instances ++ [addr]
    | .delete => instances.filter (· ≠ addr)

/-- The table, the position of the watch among the events, the number of events
up to the last one processed, and the largest such number so far. -/
structure Table where
  instances : List Bytes
  next : ℕ := 0
  last : ℕ := 0
  newest : ℕ := 0
  deriving DecidableEq, Repr

inductive Action where
  | event
  | restart (revision : ℤ)
  deriving DecidableEq

def position (ms : List Modification) (r : ℤ) : ℕ := ms.countP (fun m => m.modRevision < r)

/-- A watch starts again where it skips no event after the last one processed. -/
def step (E : Store) (p : KeyPrefix) (s : Table) : Action → Option Table
  | .event => (E.events p)[s.next]?.map (fun m =>
      ⟨onEvent p.bytes s.instances m.event, s.next + 1, s.next + 1, max s.newest (s.next + 1)⟩)
  | .restart r =>
    if ∀ m ∈ (E.events p).drop s.last, r ≤ m.modRevision then some { s with
      next := position (E.events p) r } else none

def seeded (E : Store) (p : KeyPrefix) : Table := { instances := seed p.bytes (E.rangePrefix p) }

def Table.revision (E : Store) (p : KeyPrefix) (s : Table) : ℤ :=
  (((E.events p).take s.last).getLast?.map Modification.modRevision).getD E.revision

def addresses (p : KeyPrefix) (keys : Set Bytes) : Set Bytes := {a | a ≠ [] ∧ p.bytes ++ a ∈ keys}

section callback

variable {pre : Bytes} {instances : List Bytes} {ev : WatchEvent} {kvs : List KeyValue}
    {a b : Bytes}

lemma onEvent_short (h : ev.key.length ≤ pre.length) : onEvent pre instances ev = instances :=
  if_pos h

lemma nodup_onEvent (h : instances.Nodup) : (onEvent pre instances ev).Nodup := by
  by_cases hlen : ev.key.length ≤ pre.length
  · rw [onEvent_short hlen]
    exact h
  · rw [onEvent, if_neg hlen]
    cases ev.type with
    | put =>
      by_cases hmem : ev.key.drop pre.length ∈ instances
      · simpa [hmem] using h
      · simpa [hmem] using h.concat hmem
    | delete => exact h.filter _

lemma mem_seed : a ∈ seed pre kvs ↔ ∃ kv ∈ kvs, pre.length < kv.key.length ∧
    kv.key.drop pre.length = a := by
  simp [seed]

lemma mem_seed_under (hunder : ∀ kv ∈ kvs, pre <+: kv.key) :
    a ∈ seed pre kvs ↔ a ≠ [] ∧ pre ++ a ∈ kvs.map KeyValue.key := by
  rw [mem_seed, List.mem_map]
  constructor
  · rintro ⟨kv, hkv, hlen, rfl⟩
    obtain ⟨b, hb⟩ := hunder kv hkv
    rw [← hb, List.length_append] at hlen
    rw [← hb, List.drop_left]
    exact ⟨List.length_pos_iff.mp (by omega), kv, hkv, hb.symm⟩
  · rintro ⟨ha, kv, hkv, hkey⟩
    have hpos := List.length_pos_iff.mpr ha
    refine ⟨kv, hkv, ?_, ?_⟩
    · rw [hkey, List.length_append]
      omega
    · rw [hkey, List.drop_left]

lemma nodup_seed_under (hunder : ∀ kv ∈ kvs, pre <+: kv.key)
    (hkeys : (kvs.map KeyValue.key).Nodup) :
    (seed pre kvs).Nodup := by
  apply List.pairwise_filterMap.mpr
  apply (List.pairwise_map.mp hkeys).imp_of_mem
  intro kv kv' hkv hkv' hne a ha b hb hab
  obtain ⟨c, hc⟩ := hunder kv hkv
  obtain ⟨c', hc'⟩ := hunder kv' hkv'
  rw [Option.ite_none_right_eq_some] at ha hb
  obtain ⟨-, ha⟩ := ha
  obtain ⟨-, hb⟩ := hb
  rw [← hc, List.drop_left] at ha
  rw [← hc', List.drop_left] at hb
  apply hne
  rw [← hc, ← hc', Option.some.inj ha, Option.some.inj hb, hab]

def held (pre : Bytes) (instances : List Bytes) : Set Bytes := {k | ∃ a ∈ instances, k = pre ++ a}

def proper (pre : Bytes) : Set Bytes := {k | ∃ a ≠ [], k = pre ++ a}

lemma mem_held : pre ++ a ∈ held pre instances ↔ a ∈ instances := by simp [held]

lemma nil_not_mem_onEvent (h : [] ∉ instances) : [] ∉ onEvent pre instances ev := by
  by_cases hlen : ev.key.length ≤ pre.length
  · rw [onEvent_short hlen]
    exact h
  · have haddr : [] ≠ ev.key.drop pre.length := by
      intro he
      exact hlen (List.drop_eq_nil_iff.mp he.symm)
    rw [onEvent, if_neg hlen]
    cases ev.type with
    | put =>
      by_cases hmem : ev.key.drop pre.length ∈ instances
      · simpa [hmem] using h
      · simp [hmem, h, haddr]
    | delete => simp [h]

lemma nil_not_mem_seed : [] ∉ seed pre kvs := by
  rw [mem_seed]
  rintro ⟨kv, -, hlen, hdrop⟩
  have hle := List.drop_eq_nil_iff.mp hdrop
  omega

lemma held_onEvent (hkey : pre <+: ev.key) :
    ∀ k ∈ proper pre, k ∈ held pre (onEvent pre instances ev) ↔
    k ∈ ev.update.apply (held pre instances) := by
  rintro k ⟨a, ha, rfl⟩
  rw [mem_held]
  by_cases hlen : ev.key.length ≤ pre.length
  · have hne : pre ++ a ≠ ev.update.key := by
      rw [ev.update_key]
      intro he
      rw [← he, List.length_append] at hlen
      exact ha (List.length_eq_zero_iff.mp (by omega))
    rw [onEvent_short hlen, mem_apply_ne hne, mem_held]
  · obtain ⟨b, hb⟩ := hkey
    have hdrop : ev.key.drop pre.length = b := by rw [← hb, List.drop_left]
    rw [onEvent, if_neg hlen, hdrop, WatchEvent.update, ← hb]
    cases ev.type with
    | put =>
      by_cases hmem : b ∈ instances
      · simp [Update.apply, hmem, mem_held]
      · simp [Update.apply, hmem, mem_held, or_comm]
    | delete => simp [Update.apply, mem_held]

end callback

section store

variable (E : Store) (p : KeyPrefix)

lemma mem_rangePrefix {kv : KeyValue} : kv ∈ E.rangePrefix p ↔ kv ∈ E.stored ∧
    p.bytes <+: kv.key := by
  simp [Store.rangePrefix, p.covers_iff]

lemma rangePrefix_under : ∀ kv ∈ E.rangePrefix p, p.bytes <+: kv.key :=
  fun _ hkv => ((mem_rangePrefix E p).mp hkv).2

lemma nodup_seed : (seed p.bytes (E.rangePrefix p)).Nodup :=
  nodup_seed_under (rangePrefix_under E p) (E.distinct.sublist (List.filter_sublist.map _))

lemma held_seed : ∀ k ∈ proper p.bytes, k ∈ held p.bytes (seed p.bytes (E.rangePrefix p)) ↔
    k ∈ E.keys := by
  rintro k ⟨a, ha, rfl⟩
  rw [mem_held, mem_seed_under (rangePrefix_under E p), Store.keys, Set.mem_ofPred_eq, List.mem_map,
    List.mem_map]
  constructor
  · rintro ⟨-, kv, hkv, hkey⟩
    exact ⟨kv, ((mem_rangePrefix E p).mp hkv).1, hkey⟩
  · rintro ⟨kv, hkv, hkey⟩
    exact ⟨ha, kv, (mem_rangePrefix E p).mpr ⟨hkv, a, hkey.symm⟩, hkey⟩

lemma keysAt_eq {r : ℤ} {n : ℕ} (hle : ∀ m ∈ (E.events p).take n, m.modRevision ≤ r)
    (hlt : ∀ m ∈ (E.events p).drop n, r < m.modRevision) {k : Bytes} (hk : p.Covers k) :
    k ∈ E.keysAt r ↔ k ∈ after E.keys (Store.updates ((E.events p).take n)) := by
  have hpast : ((E.events p).take n).filter (·.modRevision ≤ r) = (E.events p).take n :=
    List.filter_eq_self.mpr (fun m hm => decide_eq_true (hle m hm))
  have hrest : ((E.events p).drop n).filter (·.modRevision ≤ r) = [] :=
    List.filter_eq_nil_iff.mpr (fun m hm => by simpa using hlt m hm)
  have htake : (E.events p).filter (·.modRevision ≤ r) = (E.events p).take n := by
    conv_lhs => rw [← List.take_append_drop n (E.events p)]
    rw [List.filter_append, hpast, hrest, List.append_nil]
  have hcovered :
      (Store.updates (E.history.filter (·.modRevision ≤ r))).filter (fun u => p.Covers u.key) =
      Store.updates ((E.events p).take n) := by
    rw [← htake, E.events_eq, List.filter_filter, Store.updates, Store.updates, List.filter_map,
      List.filter_filter]
    simp only [Function.comp_def, WatchEvent.update_key, Bool.and_comm]
  rw [Store.keysAt, ← after_filter (D := {k | p.Covers k}) hk]
  exact iff_of_eq (congrArg (fun us => k ∈ after E.keys us) hcovered)

end store

structure Kept (E : Store) (p : KeyPrefix) (s : Table) : Prop where
  nodup : s.instances.Nodup
  nonempty : [] ∉ s.instances
  next_le : s.next ≤ s.last
  last_le : s.last ≤ s.newest
  lags : Lags (proper p.bytes) E.keys (Store.updates (E.events p)) s.last s.newest
      (held p.bytes s.instances)

section kept

variable {E : Store} {p : KeyPrefix} {s t : Table} {a : Action} {as : List Action}

lemma kept_seeded : Kept E p (seeded E p) where
  nodup := nodup_seed E p
  nonempty := nil_not_mem_seed
  next_le := le_rfl
  last_le := le_rfl
  lags := .start (held_seed E p)

lemma position_le {r : ℤ} {n : ℕ} {ms : List Modification}
    (h : ∀ m ∈ ms.drop n, r ≤ m.modRevision) :
    position ms r ≤ n := by
  have hdrop : (ms.drop n).countP (fun m => m.modRevision < r) = 0 := by
    apply List.countP_eq_zero.mpr
    intro m hm
    simpa using h m hm
  rw [position, ← List.take_append_drop n ms, List.countP_append, hdrop]
  exact List.countP_le_length.trans (List.length_take_le n ms)

lemma Kept.step (h : Kept E p s) (hs : step E p s a = some t) : Kept E p t := by
  cases a with
  | event =>
    rw [Instances.step, Option.map_eq_some_iff] at hs
    obtain ⟨m, hm, rfl⟩ := hs
    have hkey : p.bytes <+: m.event.key := (mem_watched.mp (List.mem_of_getElem? hm)).2.1
    have hupdate : (Store.updates (E.events p))[s.next]? = some m.event.update := by
      rw [Store.updates, List.getElem?_map, hm, Option.map_some]
    exact ⟨nodup_onEvent h.nodup, nil_not_mem_onEvent h.nonempty, le_rfl, le_max_right _ _,
      h.lags.apply h.next_le hupdate (held_onEvent hkey)⟩
  | restart r =>
    rw [Instances.step, Option.ite_none_right_eq_some] at hs
    obtain ⟨hskip, hs⟩ := hs
    cases hs
    exact { h with next_le := position_le hskip }

lemma kept_run (h : Run (Instances.step E p) Any (seeded E p) as s) : Kept E p s :=
  h.invariant kept_seeded (fun _ _ _ hu _ hs => hu.step hs)

lemma Kept.addresses_eq (h : Kept E p s) (hnew : s.last = s.newest) :
    {a | a ∈ s.instances} =
      addresses p (after E.keys (Store.updates ((E.events p).take s.last))) := by
  have hlags := h.lags
  have htake : (Store.updates (E.events p)).take s.last =
      Store.updates ((E.events p).take s.last) :=
    List.map_take.symm
  rw [← hnew] at hlags
  rw [← htake]
  ext a
  constructor
  · intro ha
    have hne : a ≠ [] := by
      rintro rfl
      exact h.nonempty ha
    exact ⟨hne, (hlags.exact ⟨a, hne, rfl⟩).mp (mem_held.mpr ha)⟩
  · rintro ⟨hne, ha⟩
    exact mem_held.mp ((hlags.exact ⟨a, hne, rfl⟩).mpr ha)

lemma le_revision : ∀ m ∈ (E.events p).take s.last, m.modRevision ≤ s.revision E p := by
  intro m hm
  have hsorted : ((E.events p).take s.last).Pairwise (·.modRevision ≤ ·.modRevision) :=
    (E.events_ordered p).sublist (List.take_sublist _ _)
  rw [Table.revision]
  induction hms : (E.events p).take s.last using List.reverseRecOn with
  | nil => simp [hms] at hm
  | append_singleton ms m' _ =>
    rw [hms] at hm hsorted
    rw [List.getLast?_concat, Option.map_some, Option.getD_some]
    rcases List.mem_append.mp hm with hm | hm
    · exact (List.pairwise_append.mp hsorted).2.2 m hm m' (by simp)
    · rw [List.mem_singleton.mp hm]

end kept

/-- Two keys are removed in one transaction. -/
def twoRemovals : Store where
  revision := 1
  stored := [⟨[1, 2], []⟩, ⟨[1, 3], []⟩]
  distinct := by decide
  history := [⟨2, ⟨.delete, [1, 2], []⟩⟩, ⟨2, ⟨.delete, [1, 3], []⟩⟩]
  ordered := by decide
  later := by decide

def samplePrefix : KeyPrefix := ⟨[1], by decide⟩

theorem within_a_revision : ¬ ∀ (E : Store) (p : KeyPrefix) (as : List Action) (s : Table),
    Run (step E p) Any (seeded E p) as s →
      s.instances.Nodup ∧
      (s.last = s.newest → {a | a ∈ s.instances} = addresses p (E.keysAt (s.revision E p))) := by
  intro hall
  have hexec : exec (step twoRemovals samplePrefix) (seeded twoRemovals samplePrefix) [.event] =
      some ⟨[[3]], 1, 1, 1⟩ := by decide
  have hrun : Run (step twoRemovals samplePrefix) Any _ _ _ := .of_exec hexec (by decide)
  have heq := (hall _ _ _ _ hrun).2 rfl
  have hmem : [3] ∈ addresses samplePrefix (twoRemovals.keysAt 2) := by
    rw [← show Table.revision twoRemovals samplePrefix ⟨[[3]], 1, 1, 1⟩ = 2 by decide, ← heq]
    exact List.mem_singleton_self _
  have hgone : [1, 3] ∈ twoRemovals.keysAt 2 := hmem.2
  simp [Store.keysAt, Store.updates, twoRemovals, WatchEvent.update, after, Update.apply] at hgone

/-- Between two events of one revision the table is that of the events, not that of the revision. -/
theorem table_converges (E : Store) (p : KeyPrefix) {as : List Action} {s : Table}
    (h : Run (step E p) Any (seeded E p) as s) :
    s.instances.Nodup ∧ (s.last = s.newest →
      {a | a ∈ s.instances} =
        addresses p (after E.keys (Store.updates ((E.events p).take s.last))) ∧
      ((∀ m ∈ (E.events p).drop s.last, s.revision E p < m.modRevision) →
        {a | a ∈ s.instances} = addresses p (E.keysAt (s.revision E p)))) := by
  have hkept := kept_run h
  refine ⟨hkept.nodup, fun hnew => ?_⟩
  have hevents := hkept.addresses_eq hnew
  refine ⟨hevents, fun hend => ?_⟩
  rw [hevents]
  ext a
  have hcovers : p.Covers (p.bytes ++ a) := (p.covers_iff _).mpr (List.prefix_append _ _)
  exact and_congr_right' (keysAt_eq E p le_revision hend hcovers).symm

def flapping : Store where
  revision := 1
  stored := [⟨[1, 2], []⟩]
  distinct := by decide
  history := [⟨2, ⟨.put, [1, 3], []⟩⟩, ⟨3, ⟨.delete, [1, 2], []⟩⟩, ⟨4, ⟨.put, [1, 2], []⟩⟩]
  ordered := by decide
  later := by decide

theorem table_converges_sample :
    ∃ s, exec (step flapping samplePrefix) (seeded flapping samplePrefix)
    [.event, .event, .event, .restart 3, .event, .event] = some s ∧
      s.instances.Nodup ∧ {a | a ∈ s.instances} = addresses samplePrefix (flapping.keysAt 4) := by
  have hexec : exec (step flapping samplePrefix) (seeded flapping samplePrefix)
      [.event, .event, .event, .restart 3, .event, .event] = some ⟨[[3], [2]], 3, 3, 3⟩ := by decide
  have hrun : Run (step flapping samplePrefix) Any _ _ _ := .of_exec hexec (by decide)
  obtain ⟨hnodup, hset⟩ := table_converges flapping samplePrefix hrun
  exact ⟨_, hexec, hnodup, (hset rfl).2 (by decide)⟩

end KimRpc.Discovery.Instances
