import Mathlib.Data.List.DropRight

/-! The lines of a text, a reader that takes them through a buffer of bounded size, and
lists without what a predicate holds of at their ends. -/

namespace KimRpc.Library.TextLines

variable {α : Type*}

section lines

variable [DecidableEq α] (stop : α)

def lines : List α → List (List α)
  | [] => []
  | c :: cs =>
    if c = stop then [c] :: lines cs
    else
      match lines cs with
      | [] => [[c]]
      | l :: ls => (c :: l) :: ls

/-- One line or as much of it as fits, and what is left; none is left when the end is met. -/
def getLine : ℕ → List α → List α × Option (List α)
  | 0, rest => ([], some rest)
  | _ + 1, [] => ([], none)
  | n + 1, c :: cs =>
    if c = stop then ([c], some cs) else ((getLine n cs).1.cons c, (getLine n cs).2)

variable {stop}

lemma getLine_some {n : ℕ} {text buf rest : List α} (h : getLine stop n text = (buf, some rest)) :
    text = buf ++ rest := by
  induction n, text using getLine.induct stop generalizing buf with
  | case1 rest' =>
    cases h
    rfl
  | case2 n => cases h
  | case3 n cs =>
    rw [getLine, if_pos rfl] at h
    cases h
    rfl
  | case4 n c cs hc ih =>
    rw [getLine, if_neg hc, Prod.mk.injEq] at h
    rw [← h.1, List.cons_append, ← ih (Prod.ext rfl h.2)]

lemma getLine_ne_nil {n : ℕ} {text buf rest : List α}
    (h : getLine stop (n + 1) text = (buf, some rest)) :
    buf ≠ [] := by
  cases text with
  | nil => cases h
  | cons c cs =>
    by_cases hc : c = stop
    · rw [getLine, if_pos hc] at h
      cases h
      exact List.cons_ne_nil _ _
    · rw [getLine, if_neg hc, Prod.mk.injEq] at h
      rw [← h.1]
      exact List.cons_ne_nil _ _

lemma getLine_shorter {n : ℕ} {text buf rest : List α}
    (h : getLine stop (n + 1) text = (buf, some rest)) :
    rest.length < text.length := by
  rw [getLine_some h, List.length_append]
  have hpos := List.length_pos_iff.mpr (getLine_ne_nil h)
  omega

variable (stop)

def readAll (n : ℕ) (text : List α) : List (List α) :=
  match h : getLine stop (n + 1) text with
  | (buf, none) => [buf]
  | (buf, some rest) =>
    have := getLine_shorter h
    buf :: readAll n rest
termination_by text.length

variable {stop} {n : ℕ} {text l rest buf : List α}

lemma readAll_last (h : getLine stop (n + 1) text = (buf, none)) : readAll stop n text = [buf] := by
  rw [readAll]
  split
  · next he =>
    rw [h] at he
    cases he
    rfl
  · next he =>
    rw [h] at he
    cases he

lemma readAll_more (h : getLine stop (n + 1) text = (buf, some rest)) :
    readAll stop n text = buf :: readAll stop n rest := by
  rw [readAll]
  split
  · next he =>
    rw [h] at he
    cases he
  · next he =>
    rw [h] at he
    cases he
    rfl

variable (stop) in
lemma lines_cases (text : List α) : text = [] ∨
    (∃ l rest, stop ∉ l ∧ text = l ++ stop :: rest ∧
      lines stop text = (l ++ [stop]) :: lines stop rest) ∨
      stop ∉ text ∧ lines stop text = [text] := by
  induction text with
  | nil => exact .inl rfl
  | cons c cs ih =>
    right
    by_cases hc : c = stop
    · subst hc
      exact .inl ⟨[], cs, List.not_mem_nil, rfl, by rw [lines, if_pos rfl, List.nil_append]⟩
    · rcases ih with rfl | ⟨l, rest, hl, rfl, hlines⟩ | ⟨hcs, hlines⟩
      · exact .inr ⟨by simp [Ne.symm hc], by simp [lines, hc]⟩
      · refine .inl ⟨c :: l, rest, by simp [Ne.symm hc, hl], rfl, ?_⟩
        rw [lines, if_neg hc, hlines]
        rfl
      · refine .inr ⟨by simp [Ne.symm hc, hcs], ?_⟩
        rw [lines, if_neg hc, hlines]

variable (stop) in
@[elab_as_elim]
lemma lines_induction {motive : List α → Prop} (nil : motive [])
    (line : ∀ l rest, stop ∉ l → lines stop (l ++ stop :: rest) = (l ++ [stop]) :: lines stop rest →
      motive rest →
      motive (l ++ stop :: rest))
    (last : ∀ text, stop ∉ text → lines stop text = [text] → motive text)
    (text : List α) : motive text := by
  induction hlen : text.length using Nat.strong_induction_on generalizing text with
  | _ k ih =>
    rcases lines_cases stop text with rfl | ⟨l, rest, hl, rfl, hlines⟩ | ⟨hstop, hlines⟩
    · exact nil
    · refine line l rest hl hlines (ih rest.length ?_ rest rfl)
      rw [← hlen, List.length_append, List.length_cons]
      omega
    · exact last text hstop hlines

lemma getLine_stop (hl : stop ∉ l) (hlen : l.length < n) :
    getLine stop n (l ++ stop :: rest) = (l ++ [stop], some rest) := by
  induction l generalizing n with
  | nil =>
    obtain ⟨n, rfl⟩ := Nat.exists_eq_succ_of_ne_zero (Nat.ne_of_gt hlen)
    rw [List.nil_append, getLine, if_pos rfl, List.nil_append]
  | cons c l ih =>
    obtain ⟨n, rfl⟩ := Nat.exists_eq_succ_of_ne_zero (Nat.ne_zero_of_lt hlen)
    rw [List.mem_cons, not_or] at hl
    rw [List.cons_append, getLine, if_neg (Ne.symm hl.1), ih hl.2 (Nat.lt_of_succ_lt_succ hlen)]
    rfl

lemma getLine_end (hl : stop ∉ l) (hlen : l.length ≤ n) :
    getLine stop n l = (l, none) ∨ getLine stop n l = (l, some []) := by
  induction l generalizing n with
  | nil =>
    cases n with
    | zero => exact .inr rfl
    | succ n => exact .inl rfl
  | cons c l ih =>
    obtain ⟨n, rfl⟩ := Nat.exists_eq_succ_of_ne_zero (Nat.ne_zero_of_lt hlen)
    rw [List.mem_cons, not_or] at hl
    rw [getLine, if_neg (Ne.symm hl.1)]
    rcases ih hl.2 (Nat.le_of_succ_le_succ hlen) with h | h
    · exact .inl (by rw [h])
    · exact .inr (by rw [h])

lemma readAll_nil : readAll stop n [] = [[]] := readAll_last rfl

lemma readAll_lines (h : ∀ l ∈ lines stop text, l.length ≤ n + 1) :
    readAll stop n text = lines stop text ∨ readAll stop n text = lines stop text ++ [[]] := by
  induction text using lines_induction stop with
  | nil => exact .inr readAll_nil
  | line l rest hl hlines ih =>
    rw [hlines, List.forall_mem_cons, List.length_append, List.length_singleton] at h
    rw [hlines, readAll_more (getLine_stop hl (Nat.lt_succ_of_le (Nat.le_of_succ_le_succ h.1)))]
    rcases ih h.2 with hrest | hrest
    · exact .inl (by rw [hrest])
    · exact .inr (by rw [hrest, List.cons_append])
  | last text hstop hlines =>
    rw [hlines, List.forall_mem_singleton] at h
    rw [hlines]
    rcases getLine_end hstop h with hend | hend
    · exact .inl (readAll_last hend)
    · exact .inr (by rw [readAll_more hend, readAll_nil, List.singleton_append])

lemma line_cases (hl : l ∈ lines stop text) :
    (∃ body, stop ∉ body ∧ l = body ++ [stop]) ∨ stop ∉ l := by
  induction text using lines_induction stop with
  | nil => cases hl
  | line body rest hbody hlines ih =>
    rw [hlines, List.mem_cons] at hl
    rcases hl with rfl | hl
    · exact .inl ⟨body, hbody, rfl⟩
    · exact ih hl
  | last text hstop hlines =>
    rw [hlines, List.mem_singleton] at hl
    exact .inr (hl ▸ hstop)

lemma mem_of_mem_line {c : α} (hl : l ∈ lines stop text) (hc : c ∈ l) : c ∈ text := by
  induction text using lines_induction stop with
  | nil => cases hl
  | line body rest hbody hlines ih =>
    rw [List.append_cons]
    rw [hlines, List.mem_cons] at hl
    rcases hl with rfl | hl
    · exact List.mem_append_left _ hc
    · exact List.mem_append_right _ (ih hl)
  | last text hstop hlines =>
    rw [hlines, List.mem_singleton] at hl
    exact hl ▸ hc

end lines

section strip

variable (p : α → Bool)

def strip (xs : List α) : List α := (xs.dropWhile p).rdropWhile p

variable {p} {xs ys : List α} {c : α}

lemma strip_all (h : ∀ x ∈ xs, p x = true) : strip p xs = [] := by
  rw [strip, List.dropWhile_eq_nil_iff.mpr h, List.rdropWhile_nil]

lemma dropWhile_append_cons (hc : ¬ p c) :
    (xs ++ c :: ys).dropWhile p = xs.dropWhile p ++ c :: ys := by
  induction xs with
  | nil => exact List.dropWhile_cons_of_neg hc
  | cons x xs ih =>
    by_cases hx : p x = true
    · rw [List.cons_append, List.dropWhile_cons_of_pos hx, List.dropWhile_cons_of_pos hx, ih]
    · rw [List.cons_append, List.dropWhile_cons_of_neg hx, List.dropWhile_cons_of_neg hx,
        List.cons_append]

lemma rdropWhile_append_cons (hc : ¬ p c) :
    (xs ++ c :: ys).rdropWhile p = xs ++ c :: ys.rdropWhile p := by
  rw [List.rdropWhile, List.rdropWhile, List.reverse_append, List.reverse_cons, List.append_assoc,
    List.singleton_append,
    dropWhile_append_cons hc, List.reverse_append, List.reverse_cons, List.reverse_reverse,
    List.append_assoc,
    List.singleton_append]

lemma strip_dropWhile : strip p (xs.dropWhile p) = strip p xs := by
  rw [strip, List.dropWhile_idempotent, strip]

lemma exists_kept (h : ¬ ∀ x ∈ xs, p x = true) : ∃ a c b, xs = a ++ c :: b ∧
    (∀ x ∈ a, p x = true) ∧ ¬ p c := by
  induction xs with
  | nil => exact absurd (fun x hx => by cases hx) h
  | cons x xs ih =>
    by_cases hx : p x = true
    · rw [List.forall_mem_cons, not_and] at h
      obtain ⟨a, c, b, rfl, ha, hc⟩ := ih (h hx)
      exact ⟨x :: a, c, b, rfl, List.forall_mem_cons.mpr ⟨hx, ha⟩, hc⟩
    · exact ⟨[], x, xs, rfl, by simp, hx⟩

lemma strip_rdropWhile : strip p (xs.rdropWhile p) = strip p xs := by
  by_cases h : ∀ x ∈ xs, p x = true
  · rw [List.rdropWhile_eq_nil_iff.mpr h, strip_all h, strip_all (by simp)]
  · obtain ⟨a, c, b, rfl, -, hc⟩ := exists_kept h
    rw [rdropWhile_append_cons hc, strip, strip, dropWhile_append_cons hc, dropWhile_append_cons hc,
      rdropWhile_append_cons hc, rdropWhile_append_cons hc, List.rdropWhile_idempotent]

end strip

end KimRpc.Library.TextLines
