import KimRpc.Discovery.KeyRange
import KimRpc.Library.Replay

/-! The store of the registry: what it held at some revision, and the
modifications made since. -/

namespace KimRpc.Discovery

open Library.Replay Wire

inductive EventType where
  | put
  | delete
  deriving DecidableEq, Repr

structure KeyValue where
  key : Bytes
  value : Bytes
  deriving DecidableEq, Repr

structure WatchEvent where
  type : EventType
  key : Bytes
  value : Bytes
  deriving DecidableEq, Repr

/-- Modifications made in one transaction have one revision. -/
structure Modification where
  modRevision : ℤ
  event : WatchEvent
  deriving DecidableEq, Repr

def watched (p : KeyPrefix) (startRevision : ℤ) (history : List Modification) : List Modification :=
  history.filter (fun m => p.Covers m.event.key ∧ startRevision ≤ m.modRevision)

lemma mem_watched {p : KeyPrefix} {r : ℤ} {history : List Modification} {m : Modification} :
    m ∈ watched p r history ↔ m ∈ history ∧ p.bytes <+: m.event.key ∧ r ≤ m.modRevision := by
  simp [watched, p.covers_iff]

def WatchEvent.update (ev : WatchEvent) : Update Bytes :=
  match ev.type with
  | .put => .add ev.key
  | .delete => .remove ev.key

lemma WatchEvent.update_key (ev : WatchEvent) : ev.update.key = ev.key := by
  rcases ev with ⟨type, key, value⟩
  cases type <;> rfl

structure Store where
  revision : ℤ
  stored : List KeyValue
  distinct : (stored.map KeyValue.key).Nodup
  history : List Modification
  ordered : history.Pairwise (·.modRevision ≤ ·.modRevision)
  later : ∀ m ∈ history, revision < m.modRevision

namespace Store

variable (E : Store) (p : KeyPrefix)

/-- The answer to a range request for the prefix; the stored pairs are in any order. -/
def rangePrefix : List KeyValue := E.stored.filter (fun kv => p.Covers kv.key)

def keys : Set Bytes := {k | k ∈ E.stored.map KeyValue.key}

def updates (ms : List Modification) : List (Update Bytes) := ms.map (fun m => m.event.update)

def keysAt (r : ℤ) : Set Bytes := after E.keys (updates (E.history.filter (·.modRevision ≤ r)))

def events : List Modification := watched p (E.revision + 1) E.history

lemma events_eq : E.events p = E.history.filter (fun m => p.Covers m.event.key) := by
  apply List.filter_congr
  intro m hm
  have hlater := E.later m hm
  simp [show E.revision + 1 ≤ m.modRevision by omega]

lemma events_ordered : (E.events p).Pairwise (·.modRevision ≤ ·.modRevision) := E.ordered.filter _

end Store

end KimRpc.Discovery
