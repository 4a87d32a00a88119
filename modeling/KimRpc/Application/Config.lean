import KimRpc.Discovery.Base64
import KimRpc.Library.TextLines

/-! The configuration file: how its lines are read into a map, and the value that a key
has by the grammar of the lines. -/

namespace KimRpc.Application.Config

open Discovery Library.TextLines Wire

section code

def npos : ℕ := 2 ^ 64 - 1

def toInt (n : ℕ) : ℤ := (n : ℤ).bmod (2 ^ 32)

def toSize (n : ℤ) : ℕ := (n % 2 ^ 64).toNat

def find (s : Bytes) (c : UInt8) (pos : ℕ) : ℕ :=
  let i := pos + (s.drop pos).findIdx (· = c)
  if i < s.length then i else npos

def findFirstNotOf (s : Bytes) (c : UInt8) : ℕ :=
  let i := s.findIdx (· ≠ c)
  if i < s.length then i else npos

def findLastNotOf (s : Bytes) (c : UInt8) : ℕ :=
  let i := s.reverse.findIdx (· ≠ c)
  if i < s.length then s.length - 1 - i else npos

def substr (s : Bytes) (pos len : ℕ) : Bytes := (s.drop pos).take len

def trim (src_buf : Bytes) : Bytes :=
  let idx := toInt (findFirstNotOf src_buf 32)
  let src_buf :=
    if idx ≠ -1 then substr src_buf (toSize idx) (src_buf.length - toSize idx) else src_buf
  let idx := toInt (findLastNotOf src_buf 32)
  if idx ≠ -1 then substr src_buf 0 (toSize (idx + 1)) else src_buf

def parseLine (buf : Bytes) : Option (Bytes × Bytes) :=
  let read_buf := trim (buf.takeWhile (· ≠ 0))
  if read_buf.headD 0 = 35 ∨ read_buf = [] then none
  else
    let idx := toInt (find read_buf 61 0)
    if idx = -1 then none
    else
      let key := trim (substr read_buf 0 (toSize idx))
      let endidx := toInt (find read_buf 10 (toSize idx))
      let value := trim (substr read_buf (toSize (idx + 1)) (toSize (endidx - idx - 1)))
      some (key, value)

abbrev ConfigMap := List (Bytes × Bytes)

def insert (m_configMap : ConfigMap) (kv : Bytes × Bytes) : ConfigMap :=
  if (m_configMap.lookup kv.1).isSome then m_configMap else m_configMap ++ [kv]

/-- `fgets` with the buffer of 512 bytes, until `feof`. -/
def buffers (file : Bytes) : List Bytes := readAll 10 510 file

def loadFile (file : Bytes) : ConfigMap :=
  (buffers file).foldl (fun m buf => match parseLine buf with
    | none => m
    | some kv => insert m kv) []

/-- The process exits, which is none, when there is no file. -/
def loadConfigFile (file : Option Bytes) : Option ConfigMap := file.map loadFile

def load (m_configMap : ConfigMap) (key : Bytes) : Bytes := (m_configMap.lookup key).getD []

end code

section grammar

def stripped (s : Bytes) : Bytes := strip (· = 32) s

def keyText (line : Bytes) : Bytes := line.takeWhile (· ≠ 61)

def valueText (line : Bytes) : Bytes := (line.dropWhile (· ≠ 61)).tail.takeWhile (· ≠ 10)

def IsBlank (line : Bytes) : Prop := ∀ c ∈ line, c = 32 ∨ c = 10

def IsComment (line : Bytes) : Prop := (line.dropWhile (· = 32)).head? = some 35

structure Sets (key line : Bytes) : Prop where
  not_blank : ¬ IsBlank line
  not_comment : ¬ IsComment line
  equals : 61 ∈ line
  key_eq : stripped (keyText line) = key

instance (line : Bytes) : Decidable (IsComment line) := inferInstanceAs (Decidable (_ = _))

instance (key line : Bytes) : Decidable (Sets key line) :=
  have : Decidable (IsBlank line) := List.decidableBAll _ _
  decidable_of_iff (¬ IsBlank line ∧ ¬ IsComment line ∧ 61 ∈ line ∧ stripped (keyText line) = key)
    ⟨fun h => ⟨h.1, h.2.1, h.2.2.1, h.2.2.2⟩, fun h => ⟨h.1, h.2, h.3, h.4⟩⟩

def setting (file key : Bytes) : Option Bytes := (lines 10 file).find? (fun line => Sets key line)

def expected (file key : Bytes) :
    Bytes := ((setting file key).map (fun line => stripped (valueText line))).getD []

/-- There are spaces up to the newline, and nothing else. -/
def HasBlankValue (line : Bytes) : Prop := valueText line ≠ [] ∧ (∀ c ∈ valueText line, c = 32) ∧
  10 ∈ line

instance (line : Bytes) : Decidable (HasBlankValue line) :=
  have : Decidable (∀ c ∈ valueText line, c = 32) := List.decidableBAll _ _
  inferInstanceAs (Decidable (_ ∧ _))

end grammar

section strings

variable {s xs ys : Bytes} {c : UInt8} {n pos : ℕ}

lemma toInt_eq (h : n < 2 ^ 31) : toInt n = n := Int.bmod_eq_of_le (by omega) (by omega)

lemma toInt_last (h : n + 1 = 2 ^ 64) : toInt n = -1 := by
  have hlast : (n : ℤ) = 2 ^ 64 - 1 := by omega
  change (n : ℤ).bmod (2 ^ 32) = -1
  rw [Int.bmod_def]
  omega

lemma toInt_npos : toInt npos = -1 := toInt_last (by norm_num [npos])

lemma toSize_eq (h : n < 2 ^ 64) : toSize n = n := by
  have hmod : (n : ℤ) % 2 ^ 64 = n := by omega
  simp only [toSize, hmod, Int.toNat_natCast]

lemma findIdx_stop {p : UInt8 → Bool} (hxs : ∀ x ∈ xs, p x = false) (hc : p c = true) :
    (xs ++ c :: ys).findIdx p = xs.length := by
  rw [List.findIdx_append, List.findIdx_eq_length.mpr hxs, if_neg (Nat.lt_irrefl _),
    List.findIdx_cons, hc, cond_true,
    Nat.zero_add]

lemma find_absent (h : c ∉ s.drop pos) : find s c pos = npos := by
  have hidx : (s.drop pos).findIdx (· = c) = (s.drop pos).length := by
    apply List.findIdx_eq_length.mpr
    intro x hx
    exact decide_eq_false (fun he => h (he ▸ hx))
  rw [find, hidx, List.length_drop]
  exact if_neg (by omega)

lemma find_present (hs : s.drop pos = xs ++ c :: ys) (hxs : c ∉ xs) :
    find s c pos = pos + xs.length := by
  have hidx : (s.drop pos).findIdx (· = c) = xs.length := by
    rw [hs]
    apply findIdx_stop
    · intro x hx
      exact decide_eq_false (fun he => hxs (he ▸ hx))
    · exact decide_eq_true rfl
  have hlen := congrArg List.length hs
  rw [List.length_drop, List.length_append, List.length_cons] at hlen
  rw [find, hidx]
  exact if_pos (by omega)

lemma findFirstNotOf_all (h : ∀ x ∈ s, x = c) : findFirstNotOf s c = npos := by
  have hidx : s.findIdx (· ≠ c) = s.length := by
    apply List.findIdx_eq_length.mpr
    intro x hx
    simp [h x hx]
  rw [findFirstNotOf, hidx]
  exact if_neg (Nat.lt_irrefl _)

lemma findLastNotOf_all (h : ∀ x ∈ s, x = c) : findLastNotOf s c = npos := by
  have hidx : s.reverse.findIdx (· ≠ c) = s.length := by
    rw [← s.length_reverse]
    apply List.findIdx_eq_length.mpr
    intro x hx
    simp [h x (List.mem_reverse.mp hx)]
  rw [findLastNotOf, hidx]
  exact if_neg (Nat.lt_irrefl _)

lemma findFirstNotOf_kept {d : UInt8} (hxs : ∀ x ∈ xs, x = c) (hd : d ≠ c) :
    findFirstNotOf (xs ++ d :: ys) c = xs.length := by
  have hidx : (xs ++ d :: ys).findIdx (· ≠ c) = xs.length := by
    apply findIdx_stop
    · intro x hx
      simp [hxs x hx]
    · simp [hd]
  rw [findFirstNotOf, hidx, List.length_append, List.length_cons]
  exact if_pos (by omega)

lemma findLastNotOf_kept {d : UInt8} (hys : ∀ y ∈ ys, y = c) (hd : d ≠ c) :
    findLastNotOf (xs ++ d :: ys) c = xs.length := by
  have hidx : (xs ++ d :: ys).reverse.findIdx (· ≠ c) = ys.length := by
    rw [List.reverse_append, List.reverse_cons, List.append_assoc, List.singleton_append,
      ← ys.length_reverse]
    apply findIdx_stop
    · intro y hy
      simp [hys y (List.mem_reverse.mp hy)]
    · simp [hd]
  rw [findLastNotOf, hidx, List.length_append, List.length_cons, if_pos (by omega)]
  omega

lemma trim_spaces (h : ∀ c ∈ s, c = 32) : trim s = s := by
  simp only [trim, findFirstNotOf_all h, findLastNotOf_all h, toInt_npos, ne_eq, not_true, if_false]

lemma exists_first (h : ¬ ∀ c ∈ s, c = 32) : ∃ xs c ys, s = xs ++ c :: ys ∧
    (∀ x ∈ xs, x = 32) ∧ c ≠ 32 := by
  obtain ⟨xs, c, ys, hs, hxs, hc⟩ :=
    exists_kept (p := fun c : UInt8 => decide (c = 32)) (by simpa using h)
  exact ⟨xs, c, ys, hs, by simpa using hxs, by simpa using hc⟩

lemma exists_last (h : ¬ ∀ c ∈ s, c = 32) : ∃ xs c ys, s = xs ++ c :: ys ∧
    (∀ y ∈ ys, y = 32) ∧ c ≠ 32 := by
  obtain ⟨ys, c, xs, hs, hys, hc⟩ := exists_first (s := s.reverse) (by simpa using h)
  refine ⟨xs.reverse, c, ys.reverse, ?_, ?_, hc⟩
  · rw [← s.reverse_reverse, hs, List.reverse_append, List.reverse_cons, List.append_assoc,
      List.singleton_append]
  · simpa using hys

lemma stripped_eq {d : UInt8} {as bs : Bytes} (hxs : ∀ x ∈ xs, x = 32) (hc : c ≠ 32)
    (hys : c :: ys = as ++ d :: bs)
    (hbs : ∀ x ∈ bs, x = 32) (hd : d ≠ 32) : stripped (xs ++ c :: ys) = as ++ [d] := by
  have hleft : (xs ++ c :: ys).dropWhile (fun x => decide (x = 32)) = c :: ys := by
    rw [dropWhile_append_cons (by simpa using hc), List.dropWhile_eq_nil_iff.mpr
      (by simpa using hxs), List.nil_append]
  rw [stripped, strip, hleft, hys, rdropWhile_append_cons (by simpa using hd),
    List.rdropWhile_eq_nil_iff.mpr (by simpa using hbs)]

lemma trim_kept (h : ¬ ∀ c ∈ s, c = 32) (hlen : s.length < 2 ^ 31) : trim s = stripped s := by
  obtain ⟨xs, c, ys, rfl, hxs, hc⟩ := exists_first h
  obtain ⟨as, d, bs, hlast, hbs, hd⟩ := exists_last (s := c :: ys) (by simp [hc])
  rw [List.length_append] at hlen
  have hlens := congrArg List.length hlast
  rw [List.length_append, List.length_cons, List.length_cons] at hlens
  rw [List.length_cons] at hlen
  have hfirst : toInt (findFirstNotOf (xs ++ c :: ys) 32) = xs.length := by
    rw [findFirstNotOf_kept hxs hc, toInt_eq (by omega)]
  have hleft :
      substr (xs ++ c :: ys) (toSize xs.length) ((xs ++ c :: ys).length - toSize xs.length) =
        c :: ys := by
    rw [toSize_eq (by omega), substr, List.drop_left, List.length_append, Nat.add_sub_cancel_left,
      List.take_length]
  have hend : toInt (findLastNotOf (c :: ys) 32) = as.length := by
    rw [hlast, findLastNotOf_kept hbs hd, toInt_eq (by omega)]
  have hright : substr (c :: ys) 0 (toSize (as.length + 1)) = as ++ [d] := by
    have hsize := toSize_eq (n := as.length + 1) (by omega)
    rw [Nat.cast_add, Nat.cast_one] at hsize
    rw [hsize, hlast, substr, List.drop_zero, List.append_cons]
    exact List.take_left' (by simp)
  simp only [trim, hfirst, ne_eq, show ¬ (xs.length : ℤ) =
    -1 by omega, not_false_eq_true, if_true, hleft, hend,
    show ¬ (as.length : ℤ) = -1 by omega, hright]
  exact (stripped_eq hxs hc hlast hbs hd).symm

lemma trim_nil : trim [] = [] := trim_spaces (by simp)

lemma trim_dropWhile (hlen : s.length < 2 ^ 31) : trim (s.dropWhile (· = 32)) = stripped s := by
  by_cases h : ∀ c ∈ s, c = 32
  · have hnil : s.dropWhile (fun c => decide (c = 32)) = [] :=
      List.dropWhile_eq_nil_iff.mpr (by simpa using h)
    rw [hnil, trim_nil, stripped, strip, hnil, List.rdropWhile_nil]
  · obtain ⟨xs, c, ys, rfl, hxs, hc⟩ := exists_first h
    have hdrop : (xs ++ c :: ys).dropWhile (fun c => decide (c = 32)) = c :: ys := by
      rw [dropWhile_append_cons (by simpa using hc), List.dropWhile_eq_nil_iff.mpr
        (by simpa using hxs), List.nil_append]
    rw [List.length_append] at hlen
    rw [stripped, ← strip_dropWhile, hdrop, trim_kept (by simp [hc]) (by omega), stripped]

lemma trim_rdropWhile (hlen : s.length < 2 ^ 31) : trim (s.rdropWhile (· = 32)) = stripped s := by
  by_cases h : ∀ c ∈ s, c = 32
  · have hnil : s.rdropWhile (fun c => decide (c = 32)) = [] :=
      List.rdropWhile_eq_nil_iff.mpr (by simpa using h)
    rw [stripped, ← strip_rdropWhile, hnil, trim_nil]
    rfl
  · obtain ⟨xs, c, ys, rfl, hys, hc⟩ := exists_last h
    have hdrop : (xs ++ c :: ys).rdropWhile (fun c => decide (c = 32)) = xs ++ [c] := by
      rw [rdropWhile_append_cons (by simpa using hc), List.rdropWhile_eq_nil_iff.mpr
        (by simpa using hys)]
    rw [List.length_append, List.length_cons] at hlen
    rw [stripped, ← strip_rdropWhile, hdrop, trim_kept (by simp [hc]), stripped]
    rw [List.length_append, List.length_singleton]
    omega

end strings

section parsing

variable {line body after : Bytes}

def takenValue (line : Bytes) :
    Bytes := if HasBlankValue line then valueText line else stripped (valueText line)

lemma equals_split (h : 61 ∈ line) :
    ∃ after, line = keyText line ++ 61 :: after ∧ 61 ∉ keyText line ∧
    valueText line = after.takeWhile (· ≠ 10) := by
  obtain ⟨before, after, rfl, hbefore⟩ := List.eq_append_cons_of_mem h
  have hne : ∀ c ∈ before, decide (c ≠ 61) = true :=
    fun c hc => decide_eq_true (fun he => hbefore (he ▸ hc))
  have hkey : keyText (before ++ 61 :: after) = before := by
    rw [keyText, List.takeWhile_append_of_pos hne, List.takeWhile_cons_of_neg (by simp),
      List.append_nil]
  refine ⟨after, by rw [hkey], by rwa [hkey], ?_⟩
  rw [valueText, List.dropWhile_append_of_pos hne, List.dropWhile_cons_of_neg (by simp),
    List.tail_cons]

lemma after_cases (hsplit : line = body ++ 61 :: after)
    (hline : (∃ ls, 10 ∉ ls ∧ line = ls ++ [10]) ∨ 10 ∉ line) :
    (∃ raw, 10 ∉ raw ∧ after = raw ++ [10] ∧ 10 ∈ line) ∨ 10 ∉ after ∧ 10 ∉ line := by
  rcases hline with ⟨ls, hls, rfl⟩ | hline
  · rcases after.eq_nil_or_concat with rfl | ⟨raw, c, rfl⟩
    · have hlast := List.append_inj_right' hsplit rfl
      cases hlast
    · rw [List.concat_eq_append, ← List.cons_append, ← List.append_assoc] at hsplit
      obtain ⟨hinit, hlast⟩ := List.append_inj' hsplit rfl
      cases hlast
      rw [hinit, List.mem_append, not_or, List.mem_cons, not_or] at hls
      exact .inl ⟨raw, hls.2.2, List.concat_eq_append ..,
        List.mem_append_right _ (List.mem_singleton_self _)⟩
  · refine .inr ⟨?_, hline⟩
    rw [hsplit, List.mem_append, not_or, List.mem_cons, not_or] at hline
    exact hline.2.2

lemma takeWhile_whole {raw : Bytes} (h : 10 ∉ raw) : raw.takeWhile (· ≠ 10) = raw := by
  apply List.takeWhile_eq_self_iff.mpr
  intro c hc
  exact decide_eq_true (fun he => h (he ▸ hc))

lemma stripped_equals (before after : Bytes) :
    stripped (before ++ 61 :: after) = before.dropWhile (· = 32) ++
      61 :: after.rdropWhile (· = 32) := by
  rw [stripped, strip, dropWhile_append_cons (by decide), rdropWhile_append_cons (by decide)]

lemma head_eq (before after after' : Bytes) :
    (before ++ 61 :: after).headD 0 = 35 ↔ (before ++ 61 :: after').head? = some 35 := by
  cases before with
  | nil => simp
  | cons c cs => simp

section value

variable {before raw : Bytes} {idx : ℕ}

def valueSubstr (read_buf : Bytes) (idx : ℤ) : Bytes :=
  substr read_buf (toSize (idx + 1)) (toSize (toInt (find read_buf 10 (toSize idx)) - idx - 1))

lemma toSize_succ (h : idx + 1 < 2 ^ 64) : toSize ((idx : ℤ) + 1) = idx + 1 := by
  have hsize := toSize_eq h
  rwa [Nat.cast_add, Nat.cast_one] at hsize

lemma drop_equals (rest : Bytes) : (before ++ 61 :: rest).drop (before.length + 1) = rest := by
  rw [← List.drop_drop, List.drop_left, List.drop_one, List.tail_cons]

lemma valueSubstr_newline (hraw : 10 ∉ raw) (hlen : before.length + raw.length + 2 < 2 ^ 31) :
    valueSubstr (before ++ 61 :: (raw ++ [10])) before.length = raw := by
  have hfind : find (before ++ 61 :: (raw ++ [10])) 10 before.length =
      before.length + (raw.length + 1) := by
    have hnot : 10 ∉ 61 :: raw := by
      rw [List.mem_cons, not_or]
      exact ⟨by decide, hraw⟩
    have hdrop : (before ++ 61 :: (raw ++ [10])).drop before.length = (61 :: raw) ++ 10 :: [] :=
      List.drop_left
    exact find_present hdrop hnot
  have hend : toInt (before.length + (raw.length + 1)) - before.length - 1 = raw.length := by
    rw [toInt_eq (by omega)]
    omega
  rw [valueSubstr, toSize_succ (by omega), toSize_eq (by omega), hfind, hend, toSize_eq (by omega),
    substr, drop_equals,
    List.take_left]

lemma valueSubstr_end (hraw : 10 ∉ raw) (hlen : before.length + raw.length + 2 < 2 ^ 31) :
    valueSubstr (before ++ 61 :: raw) before.length = raw := by
  have hfind : find (before ++ 61 :: raw) 10 before.length = npos := by
    apply find_absent
    rw [List.drop_left, List.mem_cons, not_or]
    exact ⟨by decide, hraw⟩
  have hlarge : toSize (-1 - before.length - 1) = 2 ^ 64 - before.length - 2 := by
    simp only [toSize]
    omega
  rw [valueSubstr, toSize_succ (by omega), toSize_eq (by omega), hfind, toInt_npos, hlarge, substr,
    drop_equals]
  exact List.take_of_length_le (by omega)

lemma takenValue_newline (hvalue : valueText line = raw) (hmem : 10 ∈ line)
    (hlen : raw.length < 2 ^ 31) :
    takenValue line = trim raw := by
  subst hvalue
  by_cases hall : ∀ c ∈ valueText line, c = 32
  · by_cases hnil : valueText line = []
    · rw [takenValue, if_neg (fun h => h.1 hnil), hnil, trim_nil]
      rfl
    · rw [takenValue, if_pos ⟨hnil, hall, hmem⟩, trim_spaces hall]
  · rw [takenValue, if_neg (fun h => hall h.2.1), trim_kept hall hlen]

lemma value_eq (hlen : before.length + after.length + 2 < 2 ^ 31)
    (hafter : (∃ raw, 10 ∉ raw ∧ after = raw ++ [10] ∧ 10 ∈ line) ∨ 10 ∉ after ∧ 10 ∉ line)
    (hvalue : valueText line = after.takeWhile (· ≠ 10)) :
    trim (valueSubstr (before ++ 61 :: after.rdropWhile (· = 32)) before.length) =
      takenValue line := by
  rcases hafter with ⟨raw, hraw, rfl, hmem⟩ | ⟨hnone, hnot⟩
  · rw [List.length_append] at hlen
    have hkept : (raw ++ [10]).rdropWhile (fun c : UInt8 => decide (c = 32)) = raw ++ [10] := by
      rw [rdropWhile_append_cons (by decide), List.rdropWhile_nil]
    have htext : valueText line = raw := by
      have hne : ∀ c ∈ raw, decide (c ≠ 10) = true :=
        fun c hc => decide_eq_true (fun he => hraw (he ▸ hc))
      rw [hvalue, List.takeWhile_append_of_pos hne, List.takeWhile_cons_of_neg (by decide),
        List.append_nil]
    rw [hkept, valueSubstr_newline hraw (by omega), takenValue_newline htext hmem (by omega)]
  · have hinit := List.rdropWhile_prefix (fun c : UInt8 => decide (c = 32)) after
    have hle := hinit.length_le
    rw [valueSubstr_end (fun hmem => hnone (hinit.mem hmem)) (by omega), trim_rdropWhile (by omega),
      takenValue,
      if_neg (fun h => hnot h.2.2), hvalue, takeWhile_whole hnone]

end value

lemma not_mem_trim (h : 61 ∉ line) (hlen : line.length < 2 ^ 31) : 61 ∉ trim line := by
  by_cases hall : ∀ c ∈ line, c = 32
  · rwa [trim_spaces hall]
  · rw [trim_kept hall hlen, stripped, strip]
    exact fun hmem => h ((List.dropWhile_suffix _).mem ((List.rdropWhile_prefix _ _).mem hmem))

lemma parseLine_eq (hnul : 0 ∉ line) (hlen : line.length ≤ 511)
    (hline : (∃ ls, 10 ∉ ls ∧ line = ls ++ [10]) ∨ 10 ∉ line) :
    parseLine line = if 61 ∈ line ∧
    ¬ IsComment line then some (stripped (keyText line), takenValue line) else none := by
  have hwhole : line.takeWhile (fun c => decide (c ≠ 0)) = line := by
    apply List.takeWhile_eq_self_iff.mpr
    intro c hc
    exact decide_eq_true (fun he => hnul (he ▸ hc))
  by_cases hmem : 61 ∈ line
  · obtain ⟨after, hsplit, hkey, hvalue⟩ := equals_split hmem
    generalize keyText line = before at hsplit hkey
    have hafter := after_cases hsplit hline
    have htrim : trim line =
        before.dropWhile (fun c => decide (c = 32)) ++
          61 :: after.rdropWhile (fun c => decide (c = 32)) := by
      rw [trim_kept (fun hall => absurd (hall 61 hmem) (by decide)) (by omega), hsplit,
        stripped_equals]
    have hcomment : IsComment line ↔ (trim line).headD 0 = 35 := by
      rw [htrim, head_eq _ _ after, IsComment, hsplit, dropWhile_append_cons (by decide)]
    have hnot : 61 ∉ before.dropWhile (fun c => decide (c = 32)) :=
      fun h => hkey ((List.dropWhile_suffix _).mem h)
    have hlen' : before.length + after.length + 1 ≤ 511 := by
      rwa [hsplit, List.length_append, List.length_cons, ← Nat.add_assoc] at hlen
    have hle := (List.dropWhile_suffix (fun c : UInt8 => decide (c = 32)) (l := before)).length_le
    have hidx :
        toInt (find (trim line) 61 0) = (before.dropWhile (fun c => decide (c = 32))).length := by
      rw [htrim, find_present List.drop_zero hnot, Nat.zero_add, toInt_eq (by omega)]
    by_cases hc : IsComment line
    · rw [if_neg (fun h => h.2 hc), parseLine]
      simp only [hwhole]
      exact if_pos (.inl (hcomment.mp hc))
    · have hstart : ¬ ((trim line).headD 0 = 35 ∨ trim line = []) := by
        rintro (h | h)
        · exact hc (hcomment.mpr h)
        · rw [htrim] at h
          simp at h
      have hkeyText :
          trim (substr (trim line) 0
            (toSize (before.dropWhile (fun c => decide (c = 32))).length)) =
          stripped before := by
        rw [toSize_eq (by omega), substr, List.drop_zero, htrim, List.take_left,
          trim_dropWhile (by omega)]
      have hvalueText :
          trim (valueSubstr (trim line) (before.dropWhile (fun c => decide (c = 32))).length) =
          takenValue line := by
        rw [htrim]
        exact value_eq (by omega) hafter hvalue
      rw [if_pos ⟨hmem, hc⟩, parseLine]
      simp only [hwhole, hstart, if_false, hidx]
      rw [if_neg (by omega), hkeyText, ← hvalueText]
      rfl
  · rw [if_neg (fun h => hmem h.1), parseLine]
    simp only [hwhole]
    split_ifs with hstart hidx
    · rfl
    · rfl
    · have habsent : 61 ∉ (trim line).drop 0 := by
        rw [List.drop_zero]
        exact not_mem_trim hmem (by omega)
      exact absurd (by rw [find_absent habsent, toInt_npos]) hidx

lemma parseLine_nil : parseLine [] = none := by
  rw [parseLine_eq List.not_mem_nil (Nat.zero_le _) (.inr List.not_mem_nil),
    if_neg (fun h => List.not_mem_nil h.1)]

lemma sets_iff {key : Bytes} : Sets key line ↔
    (61 ∈ line ∧ ¬ IsComment line) ∧ stripped (keyText line) = key := by
  constructor
  · rintro ⟨-, hcomment, hmem, hkey⟩
    exact ⟨⟨hmem, hcomment⟩, hkey⟩
  · rintro ⟨⟨hmem, hcomment⟩, hkey⟩
    refine ⟨fun hblank => ?_, hcomment, hmem, hkey⟩
    rcases hblank 61 hmem with h | h
    · cases h
    · cases h

end parsing

section loading

variable {file key : Bytes} {bufs : List Bytes} {m : ConfigMap}

lemma lookup_insert (kv : Bytes × Bytes) :
    (insert m kv).lookup key = (m.lookup key).or ([kv].lookup key) := by
  rw [insert]
  split_ifs with h
  · cases hkey : m.lookup key with
    | some v => rfl
    | none =>
      have hne : key ≠ kv.1 := by
        rintro rfl
        rw [hkey] at h
        cases h
      rw [Option.none_or, List.lookup_cons, beq_false_of_ne hne]
      rfl
  · rw [List.lookup_append]

lemma lookup_loaded : (bufs.foldl (fun m buf => match parseLine buf with
    | none => m
    | some kv =>
      insert m kv) m).lookup key = (m.lookup key).or ((bufs.filterMap parseLine).lookup key) := by
  induction bufs generalizing m with
  | nil => rw [List.foldl_nil, List.filterMap_nil, List.lookup_nil, Option.or_none]
  | cons buf bufs ih =>
    rw [List.foldl_cons, ih]
    cases hparse : parseLine buf with
    | none => rw [List.filterMap_cons_none hparse]
    | some kv =>
      rw [List.filterMap_cons_some hparse, lookup_insert, Option.or_assoc, ← List.lookup_append,
        List.singleton_append]

lemma lookup_lines (h : ∀ line ∈ bufs, parseLine line =
    if 61 ∈ line ∧
      ¬ IsComment line then some (stripped (keyText line), takenValue line) else none) :
    (bufs.filterMap parseLine).lookup key = (bufs.find? (fun line => Sets key line)).map
      takenValue := by
  induction bufs with
  | nil => rfl
  | cons line bufs ih =>
    rw [List.forall_mem_cons] at h
    by_cases hline : 61 ∈ line ∧ ¬ IsComment line
    · rw [if_pos hline] at h
      rw [List.filterMap_cons_some h.1, List.lookup_cons, List.find?_cons]
      by_cases hkey : stripped (keyText line) = key
      · rw [decide_eq_true (sets_iff.mpr ⟨hline, hkey⟩), hkey, beq_self_eq_true]
        rfl
      · rw [decide_eq_false (fun hsets => hkey (sets_iff.mp hsets).2),
          beq_false_of_ne (Ne.symm hkey)]
        exact ih h.2
    · rw [if_neg hline] at h
      rw [List.filterMap_cons_none h.1, List.find?_cons,
        decide_eq_false (fun hsets => hline (sets_iff.mp hsets).1)]
      exact ih h.2

lemma load_eq (hnul : 0 ∉ file) (hshort : ∀ line ∈ lines 10 file, line.length ≤ 511) :
    load (loadFile file) key = ((setting file key).map takenValue).getD [] := by
  have hparse : ∀ line ∈ lines 10 file, parseLine line =
      if 61 ∈ line ∧
        ¬ IsComment line then some (stripped (keyText line), takenValue line) else none :=
    fun line hline => parseLine_eq (fun hmem => hnul (mem_of_mem_line hline hmem))
      (hshort line hline) (line_cases hline)
  have hlookup : ((buffers file).filterMap parseLine).lookup key = (setting file key).map
      takenValue := by
    rcases readAll_lines hshort with h | h
    · rw [buffers, h, lookup_lines hparse, setting]
    · rw [buffers, h, List.filterMap_append, List.filterMap_cons_none parseLine_nil,
        List.filterMap_nil, List.append_nil,
        lookup_lines hparse, setting]
  rw [load, loadFile, lookup_loaded, List.lookup_nil, Option.none_or, hlookup]

end loading

/-- A value of spaces only keeps them. -/
theorem load_fails : ¬ ∀ file key, 0 ∉ file → (∀ line ∈ lines 10 file, line.length ≤ 511) →
    (loadConfigFile (some file)).map (fun config => load config key) =
      some (expected file key) := by
  intro hall
  have hload := hall (text "rpcserverip= \n") (text "rpcserverip") (by decide) (by decide)
  rw [loadConfigFile, Option.map_some, Option.map_some, load_eq (by decide) (by decide)] at hload
  exact absurd hload (by decide)

/-- The values are those of the grammar but for the keys whose first line has only spaces for a
value. -/
theorem load_iff (file key : Bytes) (hnul : 0 ∉ file)
    (hshort : ∀ line ∈ lines 10 file, line.length ≤ 511) :
    (loadConfigFile (some file)).map (fun config => load config key) = some (expected file key) ↔
      ∀ line ∈ setting file key, ¬ HasBlankValue line := by
  rw [loadConfigFile, Option.map_some, Option.map_some, load_eq hnul hshort, Option.some.injEq,
    expected]
  cases hsetting : setting file key with
  | none => simp
  | some line =>
    have hblank : HasBlankValue line → valueText line ≠ stripped (valueText line) := by
      rintro ⟨hne, hall, -⟩ heq
      rw [stripped, strip_all (by simpa using hall)] at heq
      exact hne heq
    by_cases h : HasBlankValue line
    · simpa [takenValue, h] using hblank h
    · simp [takenValue, h]

def sampleFile : Bytes := text "# etcdip=c\n etcdip = a=b \nport=\netcdip=x\nport= 1"

theorem load_iff_sample :
    (loadConfigFile (some sampleFile)).map (fun config => load config (text "etcdip")) =
    some (text "a=b") := by
  have hexpected : expected sampleFile (text "etcdip") = text "a=b" := by decide
  rw [(load_iff sampleFile (text "etcdip") (by decide) (by decide)).mpr (by decide), hexpected]

end KimRpc.Application.Config
