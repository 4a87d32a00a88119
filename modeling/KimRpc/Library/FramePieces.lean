import Mathlib.Tactic

/-! Streams written in pieces, each by the owner of a frame: whole frames, one after
the other, and then at most one frame of which only the beginning is there. -/

namespace KimRpc.Library.FramePieces

variable {ι α : Type*} {frame frame' : ι → List α}

def bytes (wire : List (ι × List α)) : List α := (wire.map Prod.snd).flatten

def tagged (i : ι) (pieces : List (List α)) : List (ι × List α) := pieces.map (Prod.mk i)

inductive Whole (frame : ι → List α) : List (ι × List α) → Prop
  | nil : Whole frame []
  | snoc {wire i pieces} : Whole frame wire → pieces ≠ [] → pieces.flatten = frame i →
      Whole frame (wire ++ tagged i pieces)

/-- Whole frames, and then pieces of one more that do not exceed it. -/
def Framed (frame : ι → List α) (wire : List (ι × List α)) : Prop :=
  ∃ whole i pieces, wire = whole ++ tagged i pieces ∧ Whole frame whole ∧ pieces.flatten <+: frame i

def Concatenated (frame : ι → List α) (stream : List α) : Prop :=
  ∃ done part i, stream = (List.map frame done).flatten ++ part ∧ part <+: frame i

@[simp] lemma bytes_append (wire wire' : List (ι × List α)) :
    bytes (wire ++ wire') = bytes wire ++ bytes wire' := by
  simp [bytes]

@[simp] lemma bytes_tagged (i : ι) (pieces : List (List α)) :
    bytes (tagged i pieces) = pieces.flatten := by
  simp [bytes, tagged, Function.comp_def]

lemma tagged_snoc (i : ι) (pieces : List (List α)) (piece : List α) :
    tagged i (pieces ++ [piece]) = tagged i pieces ++ [(i, piece)] := by
  simp [tagged]

lemma mem_tagged {i : ι} {pieces : List (List α)} (h : pieces ≠ []) : ∃ piece,
    (i, piece) ∈ tagged i pieces := by
  obtain ⟨piece, hp⟩ := List.exists_mem_of_ne_nil pieces h
  exact ⟨piece, List.mem_map_of_mem hp⟩

lemma Whole.bytes_eq {wire : List (ι × List α)} (h : Whole frame wire) :
    ∃ done, bytes wire = (List.map frame done).flatten := by
  induction h with
  | nil => exact ⟨[], rfl⟩
  | @snoc wire i pieces _ _ hp ih =>
    obtain ⟨done, hd⟩ := ih
    exact ⟨done ++ [i], by simp [hd, hp]⟩

lemma Framed.concatenated {wire : List (ι × List α)} (h : Framed frame wire) :
    Concatenated frame (bytes wire) := by
  obtain ⟨whole, i, pieces, rfl, hw, hp⟩ := h
  obtain ⟨done, hd⟩ := hw.bytes_eq
  exact ⟨done, pieces.flatten, i, by rw [bytes_append, hd, bytes_tagged], hp⟩

lemma Whole.congr {wire : List (ι × List α)} (h : Whole frame wire)
    (hf : ∀ e ∈ wire, frame' e.1 = frame e.1) :
    Whole frame' wire := by
  induction h with
  | nil => exact .nil
  | @snoc wire i pieces _ hne hp ih =>
    obtain ⟨piece, hpiece⟩ := mem_tagged (i := i) hne
    have hi := hf (i, piece) (List.mem_append_right _ hpiece)
    exact .snoc (ih (fun e he => hf e (List.mem_append_left _ he))) hne (hp.trans hi.symm)

lemma Concatenated.front {stream : List α} (h : Concatenated frame stream) (hne : stream ≠ []) :
    ∃ i, frame i ≠ [] ∧ (frame i <+: stream ∨ stream <+: frame i) := by
  obtain ⟨done, part, i, rfl, hp⟩ := h
  induction done with
  | nil =>
    refine ⟨i, ?_, .inr hp⟩
    rintro hi
    rw [hi, List.prefix_nil] at hp
    exact hne hp
  | cons d done ih =>
    by_cases hd : frame d = []
    · simp only [List.map_cons, List.flatten_cons, hd, List.nil_append] at hne ⊢
      exact ih hne
    · refine ⟨d, hd, .inl ?_⟩
      rw [List.map_cons, List.flatten_cons, List.append_assoc]
      exact List.prefix_append _ _

lemma flatMap_nonempty (frame : ι → List α) (done : List ι) :
    (done.filter (fun i => !(frame i).isEmpty)).flatMap frame = done.flatMap frame := by
  induction done with
  | nil => rfl
  | cons i done ih =>
    rw [List.filter_cons]
    split_ifs with hi
    · rw [List.flatMap_cons, List.flatMap_cons, ih]
    · have hempty : frame i = [] := by simpa using hi
      rw [List.flatMap_cons, hempty, List.nil_append, ih]

section share

variable [DecidableEq ι]

def share (wire : List (ι × List α)) (i : ι) : ℕ := (bytes (wire.filter (fun e => e.1 = i))).length

lemma share_append (wire wire' : List (ι × List α)) (i : ι) :
    share (wire ++ wire') i = share wire i + share wire' i := by
  simp [share]

lemma share_tagged (i j : ι) (pieces : List (List α)) :
    share (tagged i pieces) j = if i = j then pieces.flatten.length else 0 := by
  unfold share tagged
  rw [List.filter_map]
  split_ifs with hij
  · simp [bytes, Function.comp_def, hij]
  · simp [bytes, Function.comp_def, hij]

lemma share_eq_zero {wire : List (ι × List α)} {i : ι} (h : ∀ e ∈ wire, e.1 ≠ i) :
    share wire i = 0 := by
  have hnone : wire.filter (fun e => e.1 = i) = [] :=
    List.filter_eq_nil_iff.mpr (fun e he => by simpa using h e he)
  simp [share, bytes, hnone]

lemma share_pos {wire : List (ι × List α)} {e : ι × List α} (he : e ∈ wire) (hne : e.2 ≠ []) :
    0 < share wire e.1 := by
  have hmem : e ∈ wire.filter (fun e' => e'.1 = e.1) := List.mem_filter.mpr ⟨he, by simp⟩
  obtain ⟨x, hx⟩ := List.exists_mem_of_ne_nil _ hne
  refine List.length_pos_of_mem (a := x) ?_
  simp only [bytes, List.mem_flatten, List.mem_map]
  exact ⟨e.2, ⟨e, hmem, rfl⟩, hx⟩

lemma Whole.owners {wire : List (ι × List α)} (h : Whole frame wire) :
    ∃ done, bytes wire = (List.map frame done).flatten ∧
    (∀ i ∈ done, ∃ piece, (i, piece) ∈ wire) ∧
    ∀ i, share wire i = done.count i * (frame i).length := by
  induction h with
  | nil => exact ⟨[], rfl, nofun, fun i => by simp [share, bytes]⟩
  | @snoc wire i pieces _ hne hp ih =>
    obtain ⟨done, hbytes, howned, hshare⟩ := ih
    refine ⟨done ++ [i], by simp [hbytes, hp], fun j hj => ?_, fun j => ?_⟩
    · rcases List.mem_append.mp hj with hold | hnew
      · obtain ⟨piece, hpiece⟩ := howned j hold
        exact ⟨piece, List.mem_append_left _ hpiece⟩
      · rw [List.mem_singleton.mp hnew]
        obtain ⟨piece, hpiece⟩ := mem_tagged (i := i) hne
        exact ⟨piece, List.mem_append_right _ hpiece⟩
    · rw [share_append, share_tagged, hshare, List.count_append, List.count_singleton, hp,
        Nat.add_mul]
      by_cases hij : i = j
      · subst hij
        simp
      · simp [hij]

end share

end KimRpc.Library.FramePieces
