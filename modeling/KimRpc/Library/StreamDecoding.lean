import Mathlib.Tactic

/-! Incremental decoders. A decoder looks at the front of its buffer and waits,
stops for good, or emits and drops a nonempty front; what it decides does not
change when more input follows. Draining after each chunk then equals one drain
of the whole stream. -/

namespace KimRpc.Library.StreamDecoding

variable {α β : Type*}

inductive Verdict (α β : Type*) where
  | wait
  | stop
  | emit (out : List β) (rest : List α)
  deriving DecidableEq

inductive Status (α : Type*) where
  | pending (buffer : List α)
  | stopped
  deriving DecidableEq

structure Decoder (α β : Type*) where
  next : List α → Verdict α β
  next_nil : next [] = .wait
  emit_shorter : ∀ {xs out rest}, next xs = .emit out rest → rest.length < xs.length
  emit_append : ∀ {xs out rest} ys, next xs = .emit out rest →
      next (xs ++ ys) = .emit out (rest ++ ys)
  stop_append : ∀ {xs} ys, next xs = .stop → next (xs ++ ys) = .stop

namespace Decoder

variable (d : Decoder α β)

/-- The drain loop with a bound on its turns; none when the bound is too small. -/
def loop : ℕ → List α → Option (List β × Status α)
  | 0, _ => none
  | n + 1, xs =>
    match d.next xs with
    | .wait => some ([], .pending xs)
    | .stop => some ([], .stopped)
    | .emit out rest => (loop n rest).map (fun r => (out ++ r.1, r.2))

lemma loop_isSome {n : ℕ} (xs : List α) (h : xs.length < n) : (d.loop n xs).isSome := by
  induction n generalizing xs with
  | zero => omega
  | succ n ih =>
    rw [loop]
    cases hv : d.next xs with
    | wait | stop => rfl
    | emit out rest =>
      have hr := d.emit_shorter hv
      simpa using ih rest (by omega)

def drain (xs : List α) : List β × Status α :=
  (d.loop (xs.length + 1) xs).get (d.loop_isSome xs (Nat.lt_succ_self _))

lemma loop_eq_drain {n : ℕ} {xs : List α} (h : xs.length < n) :
    d.loop n xs = some (d.drain xs) := by
  have hstable : ∀ m k, ∀ ys : List α, ys.length < m → ys.length < k →
      d.loop m ys = d.loop k ys := by
    intro m
    induction m with
    | zero => intro k ys hm; omega
    | succ m ih =>
      intro k ys hm hk
      obtain ⟨k, rfl⟩ : ∃ j, k = j + 1 := ⟨k - 1, by omega⟩
      simp only [loop]
      cases hv : d.next ys with
      | wait | stop => rfl
      | emit out rest =>
        have hr := d.emit_shorter hv
        simp only [ih k rest (by omega) (by omega)]
  rw [hstable n (xs.length + 1) xs h (Nat.lt_succ_self _)]
  exact (Option.some_get _).symm

lemma drain_wait {xs : List α} (h : d.next xs = .wait) : d.drain xs = ([], .pending xs) := by
  apply Option.some.inj
  rw [← d.loop_eq_drain (Nat.lt_succ_self xs.length), loop, h]

lemma drain_stop {xs : List α} (h : d.next xs = .stop) : d.drain xs = ([], .stopped) := by
  apply Option.some.inj
  rw [← d.loop_eq_drain (Nat.lt_succ_self xs.length), loop, h]

lemma drain_emit {xs rest : List α} {out : List β} (h : d.next xs = .emit out rest) :
    d.drain xs = (out ++ (d.drain rest).1, (d.drain rest).2) := by
  apply Option.some.inj
  rw [← d.loop_eq_drain (Nat.lt_succ_self xs.length), loop, h]
  simp only [d.loop_eq_drain (d.emit_shorter h), Option.map_some]

@[simp] lemma drain_nil : d.drain [] = ([], .pending []) := d.drain_wait d.next_nil

def feed (acc : List β × Status α) (chunk : List α) : List β × Status α :=
  match acc.2 with
  | .pending buffer => (acc.1 ++ (d.drain (buffer ++ chunk)).1, (d.drain (buffer ++ chunk)).2)
  | .stopped => acc

lemma feed_drain (xs ys : List α) : d.feed (d.drain xs) ys = d.drain (xs ++ ys) := by
  induction xs using (measure List.length).wf.induction with
  | h xs ih =>
    cases hv : d.next xs with
    | wait => simp [feed, d.drain_wait hv]
    | stop => simp [feed, d.drain_stop hv, d.drain_stop (d.stop_append ys hv)]
    | emit out rest =>
      have hi := ih rest (d.emit_shorter hv)
      rw [d.drain_emit hv, d.drain_emit (d.emit_append ys hv), ← hi]
      obtain ⟨outs, status⟩ := d.drain rest
      cases status with
      | pending buffer => simp [feed]
      | stopped => rfl

lemma drain_prefix {xs ys : List α} (h : xs <+: ys) : (d.drain xs).1 <+: (d.drain ys).1 := by
  obtain ⟨zs, rfl⟩ := h
  rw [← d.feed_drain xs zs, feed]
  cases (d.drain xs).2 with
  | pending buffer => exact List.prefix_append _ _
  | stopped => exact List.prefix_rfl

lemma drain_onward {xs buffer : List α} {out : List β}
    (h : d.drain xs = (out ++ (d.drain buffer).1, (d.drain buffer).2))
    (ys : List α) :
    d.drain (xs ++ ys) = (out ++ (d.drain (buffer ++ ys)).1, (d.drain (buffer ++ ys)).2) := by
  rw [← d.feed_drain xs ys, ← d.feed_drain buffer ys, h, feed, feed]
  cases hstatus : (d.drain buffer).2 with
  | pending rest => simp
  | stopped => simp [hstatus]

lemma feed_chunks (xs : List α) (chunks : List (List α)) :
    chunks.foldl d.feed (d.drain xs) = d.drain (xs ++ chunks.flatten) := by
  induction chunks generalizing xs with
  | nil => simp
  | cons c chunks ih => rw [List.foldl_cons, feed_drain, ih, List.flatten_cons, List.append_assoc]

lemma feed_stream (chunks : List (List α)) :
    chunks.foldl d.feed ([], .pending []) = d.drain chunks.flatten := by
  rw [← d.drain_nil, d.feed_chunks, List.nil_append]

lemma pending_waits (xs : List α) : ∀ rest, (d.drain xs).2 = .pending rest →
    d.next rest = .wait := by
  induction xs using (measure List.length).wf.induction with
  | h xs ih =>
    intro rest hr
    cases hv : d.next xs with
    | wait =>
      rw [d.drain_wait hv] at hr
      cases hr
      exact hv
    | stop => simp [d.drain_stop hv] at hr
    | emit out ys =>
      rw [d.drain_emit hv] at hr
      exact ih ys (d.emit_shorter hv) rest hr

lemma drain_length {m : ℕ}
    (hm : ∀ xs out rest, d.next xs = .emit out rest → m * out.length + rest.length ≤ xs.length)
    (xs : List α) :
    m * (d.drain xs).1.length ≤ xs.length := by
  induction xs using (measure List.length).wf.induction with
  | h xs ih =>
    cases hv : d.next xs with
    | wait => simp [d.drain_wait hv]
    | stop => simp [d.drain_stop hv]
    | emit out rest =>
      have hfront := hm xs out rest hv
      have hrest := ih rest (d.emit_shorter hv)
      rw [d.drain_emit hv, List.length_append, Nat.mul_add]
      omega

lemma drain_frames {ι : Type*} (frame : ι → List α) (out : ι → List β) (is : List ι)
    (hframe : ∀ i ∈ is, ∀ ys, d.next (frame i ++ ys) = .emit (out i) ys) :
    d.drain (is.flatMap frame) = (is.flatMap out, .pending []) := by
  induction is with
  | nil => simp
  | cons i is ih =>
    have hi := hframe i (by simp) (is.flatMap frame)
    rw [List.flatMap_cons, d.drain_emit hi, ih (fun j hj => hframe j (by simp [hj])),
      List.flatMap_cons]

lemma drain_each {ι : Type*} {frame : ι → List α} {out : ι → β} {is : List ι}
    (hframe : ∀ i ∈ is, ∀ ys,
      d.next (frame i ++ ys) = .emit [out i] ys ∨ d.next (frame i ++ ys) = .emit [] ys ∨
      d.next (frame i ++ ys) = .stop) :
    (d.drain (is.flatMap frame)).1.Sublist (is.map out) := by
  induction is with
  | nil => simp
  | cons i is ih =>
    have hrest := ih (fun j hj => hframe j (by simp [hj]))
    rw [List.flatMap_cons, List.map_cons]
    rcases hframe i (by simp) (is.flatMap frame) with hemit | hskip | hstop
    · rw [d.drain_emit hemit]
      exact hrest.cons_cons (out i)
    · rw [d.drain_emit hskip]
      exact hrest.cons (out i)
    · rw [d.drain_stop hstop]
      exact List.nil_sublist _

end Decoder

end KimRpc.Library.StreamDecoding
