import KimRpc.Library.LittleEndian
import KimRpc.Library.StreamDecoding

/-! Frames made of a four-byte header length, a header and a body whose length
the parsed header gives. Lengths are checked before the bytes they announce
are waited for. -/

namespace KimRpc.Library.HeaderFraming

open StreamDecoding LittleEndian

variable {η β : Type*}

structure Framing (η β : Type*) where
  headerOk : ℕ → Bool
  parse : List UInt8 → Option η
  bodySize : η → ℕ
  bodyOk : ℕ → Bool
  deliver : η → List UInt8 → Option (List β)

namespace Framing

variable (F : Framing η β)

def finish (out : Option (List β)) (rest : List UInt8) : Verdict UInt8 β :=
  match out with
  | none => .stop
  | some out => .emit out rest

def body (n : ℕ) (h : η) (xs : List UInt8) : Verdict UInt8 β :=
  if !F.bodyOk (F.bodySize h) then .stop
  else if xs.length < 4 + n + F.bodySize h then .wait
  else finish (F.deliver h ((xs.drop (4 + n)).take (F.bodySize h))) (xs.drop (4 + n + F.bodySize h))

def next (xs : List UInt8) : Verdict UInt8 β :=
  if xs.length < 4 then .wait
  else if !F.headerOk (value (xs.take 4)) then .stop
  else if xs.length < 4 + value (xs.take 4) then .wait
  else match F.parse ((xs.drop 4).take (value (xs.take 4))) with
    | none => .stop
    | some h => F.body (value (xs.take 4)) h xs

lemma window_append (xs : List UInt8) {n m : ℕ} (ys : List UInt8) (h : n + m ≤ xs.length) :
    ((xs ++ ys).drop n).take m = (xs.drop n).take m := by
  have hm : m ≤ (xs.drop n).length := by
    rw [List.length_drop]
    omega
  rw [List.drop_append_of_le_length (Nat.le_of_add_right_le h), List.take_append_of_le_length hm]

lemma body_append (n : ℕ) (h : η) (xs ys : List UInt8) (hw : F.body n h xs ≠ .wait) :
    F.body n h (xs ++ ys) = match F.body n h xs with
      | .emit out rest => .emit out (rest ++ ys)
      | v => v := by
  by_cases hok : F.bodyOk (F.bodySize h) = true
  · by_cases hl : xs.length < 4 + n + F.bodySize h
    · simp [body, hok, hl] at hw
    · have hl' : ¬ (xs ++ ys).length < 4 + n + F.bodySize h := by rw [List.length_append]; omega
      have ht := window_append xs (n := 4 + n) (m := F.bodySize h) ys (by omega)
      have hd : (xs ++ ys).drop (4 + n + F.bodySize h) = xs.drop (4 + n + F.bodySize h) ++ ys :=
        List.drop_append_of_le_length (by omega)
      simp only [body, hok, hl, hl', ht, hd, Bool.not_true, Bool.false_eq_true, if_false]
      cases F.deliver h ((xs.drop (4 + n)).take (F.bodySize h)) <;> rfl
  · simp [body, hok]

lemma next_append (xs ys : List UInt8) (hw : F.next xs ≠ .wait) :
    F.next (xs ++ ys) = match F.next xs with
      | .emit out rest => .emit out (rest ++ ys)
      | v => v := by
  by_cases h4 : xs.length < 4
  · simp [next, h4] at hw
  have h4' : ¬ (xs ++ ys).length < 4 := by rw [List.length_append]; omega
  have ht : (xs ++ ys).take 4 = xs.take 4 := List.take_append_of_le_length (by omega)
  by_cases hok : F.headerOk (value (xs.take 4)) = true
  · by_cases hl : xs.length < 4 + value (xs.take 4)
    · simp [next, h4, hok, hl] at hw
    have hl' : ¬ (xs ++ ys).length < 4 + value (xs.take 4) := by rw [List.length_append]; omega
    have hd := window_append xs (n := 4) (m := value (xs.take 4)) ys (by omega)
    simp only [next, h4, hok, hl, if_false, Bool.not_true, Bool.false_eq_true] at hw
    simp only [next, h4, h4', hok, hl, hl', ht, hd, if_false, Bool.not_true, Bool.false_eq_true]
    cases hp : F.parse ((xs.drop 4).take (value (xs.take 4))) with
    | none => rfl
    | some h =>
      simp only [hp] at hw
      exact F.body_append _ h xs ys hw
  · simp only [next, h4, h4', ht, hok, if_false, Bool.not_false, if_true]

lemma body_emit {n : ℕ} {h : η} {xs rest : List UInt8} {out : List β}
    (he : F.body n h xs = .emit out rest) :
    F.bodyOk (F.bodySize h) = true ∧ 4 + n + F.bodySize h ≤ xs.length ∧
      F.deliver h ((xs.drop (4 + n)).take (F.bodySize h)) = some out ∧
      rest = xs.drop (4 + n + F.bodySize h) := by
  rw [body] at he
  split_ifs at he with hok hl
  cases hd : F.deliver h ((xs.drop (4 + n)).take (F.bodySize h)) with
  | none => simp [hd, finish] at he
  | some o =>
    simp only [hd, finish, Verdict.emit.injEq] at he
    exact ⟨by simpa using hok, by omega, by rw [he.1], he.2.symm⟩

lemma next_emit {xs rest : List UInt8} {out : List β} (he : F.next xs = .emit out rest) :
    4 + rest.length ≤ xs.length ∧ ∃ h args, F.deliver h args = some out := by
  rw [next] at he
  split_ifs at he with h4 hok hl
  cases hp : F.parse ((xs.drop 4).take (value (xs.take 4))) with
  | none => simp [hp] at he
  | some h =>
    rw [hp] at he
    obtain ⟨_, hlen, hout, rfl⟩ := F.body_emit he
    refine ⟨?_, h, _, hout⟩
    rw [List.length_drop]
    omega

lemma next_emit_length {xs rest : List UInt8} {out : List β} (he : F.next xs = .emit out rest) :
    rest.length < xs.length := by
  have hlen := (F.next_emit he).1
  omega

lemma next_wait_length {H B : ℕ} (hheader : ∀ n, F.headerOk n = true → n ≤ H)
    (hbody : ∀ n, F.bodyOk n = true → n ≤ B)
    {xs : List UInt8} (h : F.next xs = .wait) : xs.length < 4 + H + B := by
  rw [next] at h
  split_ifs at h with h4 hok hl
  · omega
  · have hn := hheader _ (by simpa using hok)
    omega
  · have hn := hheader _ (by simpa using hok)
    cases hp : F.parse ((xs.drop 4).take (value (xs.take 4))) with
    | none => simp [hp] at h
    | some header =>
      simp only [hp, body] at h
      split_ifs at h with hbodyOk hshort
      · have hb := hbody _ (by simpa using hbodyOk)
        omega
      · cases hd :
          F.deliver header ((xs.drop (4 + value (xs.take 4))).take (F.bodySize header)) with
        | none => simp [hd, finish] at h
        | some out => simp [hd, finish] at h

lemma next_completed {xs ys rest : List UInt8} {out : List β} (hw : F.next xs = .wait)
    (he : F.next (xs ++ ys) = .emit out rest) : rest.length < ys.length := by
  by_contra hlong
  have hlen := (F.next_emit he).1
  rw [List.length_append] at hlen
  have ht : (xs ++ ys).take 4 = xs.take 4 := List.take_append_of_le_length (by omega)
  rw [next, ht] at he
  split_ifs at he with h4 hok hl
  have h4' : ¬ xs.length < 4 := by omega
  cases hp : F.parse (((xs ++ ys).drop 4).take (value (xs.take 4))) with
  | none => simp [hp] at he
  | some h =>
    rw [hp] at he
    obtain ⟨hbody, hfits, hout, rfl⟩ := F.body_emit he
    rw [List.length_drop, List.length_append] at hlong
    rw [List.length_append] at hfits
    have hfits' : 4 + value (xs.take 4) + F.bodySize h ≤ xs.length := by omega
    rw [window_append xs ys (by omega)] at hp hout
    have hnot : ¬ xs.length < 4 + value (xs.take 4) := by omega
    rw [next, if_neg h4', if_neg hok, if_neg hnot, hp] at hw
    simp only [body, hbody, Bool.not_true, Bool.false_eq_true, if_false, hout, finish,
      not_lt.mpr hfits'] at hw
    cases hw

def decoder : Decoder UInt8 β where
  next := F.next
  next_nil := by simp [next]
  emit_shorter := F.next_emit_length
  emit_append ys h := by rw [F.next_append _ ys (by simp [h]), h]
  stop_append ys h := by rw [F.next_append _ ys (by simp [h]), h]

inductive Front (F : Framing η β) : List UInt8 → Verdict UInt8 β → Prop
  | shortSize {xs} : xs.length < 4 → Front F xs .wait
  | badSize {n} (ys) : n < 2 ^ 32 → F.headerOk n = false → Front F (encode 4 n ++ ys) .stop
  | shortHeader {n ys} : n < 2 ^ 32 → F.headerOk n = true → ys.length < n →
      Front F (encode 4 n ++ ys) .wait
  | badHeader {hb} (ys) : hb.length < 2 ^ 32 → F.headerOk hb.length = true → F.parse hb = none →
      Front F (encode 4 hb.length ++ (hb ++ ys)) .stop
  | badBody {hb h} (ys) : hb.length < 2 ^ 32 → F.headerOk hb.length = true → F.parse hb = some h →
      F.bodyOk (F.bodySize h) = false → Front F (encode 4 hb.length ++ (hb ++ ys)) .stop
  | shortBody {hb h ys} : hb.length < 2 ^ 32 → F.headerOk hb.length = true → F.parse hb = some h →
      F.bodyOk (F.bodySize h) = true → ys.length < F.bodySize h →
      Front F (encode 4 hb.length ++ (hb ++ ys)) .wait
  | frame {hb h args} (ys) : hb.length < 2 ^ 32 → F.headerOk hb.length = true →
      F.parse hb = some h →
      F.bodyOk (F.bodySize h) = true → args.length = F.bodySize h →
      Front F (encode 4 hb.length ++ (hb ++ (args ++ ys))) (finish (F.deliver h args) ys)

lemma next_prefix {n : ℕ} (ys : List UInt8) (hn : n < 2 ^ 32) :
    F.next (encode 4 n ++ ys) =
      if !F.headerOk n then .stop
      else if ys.length < n then .wait
      else match F.parse (ys.take n) with
        | none => .stop
        | some h => F.body n h (encode 4 n ++ ys) := by
  have hv : value (encode 4 n) = n := value_encode_of_lt (by omega)
  have ht : (encode 4 n ++ ys).take 4 = encode 4 n := List.take_left' (by simp)
  have hd : (encode 4 n ++ ys).drop 4 = ys := List.drop_left' (by simp)
  have h4 : ¬ (encode 4 n ++ ys).length < 4 := by simp
  have hl : (encode 4 n ++ ys).length < 4 + n ↔ ys.length < n := by simp
  simp only [next, h4, ht, hv, hl, hd, if_false]

lemma next_header {hb : List UInt8} {h : η} (ys : List UInt8) (hlen : hb.length < 2 ^ 32)
    (hok : F.headerOk hb.length = true) (hp : F.parse hb = some h) :
    F.next (encode 4 hb.length ++ (hb ++ ys)) =
      if !F.bodyOk (F.bodySize h) then .stop
      else if ys.length < F.bodySize h then .wait
      else finish (F.deliver h (ys.take (F.bodySize h))) (ys.drop (F.bodySize h)) := by
  have ht : (hb ++ ys).take hb.length = hb := List.take_left' rfl
  have hs : ¬ (hb ++ ys).length < hb.length := by simp
  have hd : (encode 4 hb.length ++ (hb ++ ys)).drop (4 + hb.length) = ys := by
    rw [← List.append_assoc]
    exact List.drop_left' (by simp)
  have hl : (encode 4 hb.length ++ (hb ++ ys)).length < 4 + hb.length + F.bodySize h ↔
      ys.length < F.bodySize h := by
    simp
    omega
  rw [F.next_prefix (hb ++ ys) hlen, ht, hp]
  simp only [hok, hs, body, hl, ← List.drop_drop (i := F.bodySize h), hd, if_false, Bool.not_true,
    Bool.false_eq_true]

lemma Front.next_eq {xs : List UInt8} {v : Verdict UInt8 β} (hf : Front F xs v) :
    F.next xs = v := by
  cases hf with
  | shortSize h => simp [next, h]
  | badSize ys hn hok => simp [F.next_prefix ys hn, hok]
  | shortHeader hn hok hl => simp [F.next_prefix _ hn, hok, hl]
  | badHeader ys hn hok hp => simp [F.next_prefix _ hn, hok, hp]
  | badBody ys hn hok hp hb => simp [F.next_header ys hn hok hp, hb]
  | shortBody hn hok hp hb hl => simp [F.next_header _ hn hok hp, hb, hl]
  | frame ys hn hok hp hb ha =>
    rw [← ha] at hb
    simp [F.next_header _ hn hok hp, hb, ← ha]

lemma split_prefix (xs : List UInt8) (h : 4 ≤ xs.length) :
    ∃ n ys, xs = encode 4 n ++ ys ∧ n < 2 ^ 32 := by
  have h4 : (xs.take 4).length = 4 := by rw [List.length_take]; omega
  have hlt : value (xs.take 4) < 256 ^ (xs.take 4).length := value_lt _
  have henc : encode (xs.take 4).length (value (xs.take 4)) = xs.take 4 := encode_value _
  rw [h4] at hlt henc
  exact ⟨value (xs.take 4), xs.drop 4, by rw [henc, List.take_append_drop], hlt⟩

lemma split_at (ys : List UInt8) {n : ℕ} (h : n ≤ ys.length) : ∃ hb zs, ys = hb ++ zs ∧
    hb.length = n :=
  ⟨ys.take n, ys.drop n, (List.take_append_drop n ys).symm, by rw [List.length_take]; omega⟩

lemma front_exists (xs : List UInt8) : ∃ v, Front F xs v := by
  by_cases h4 : xs.length < 4
  · exact ⟨_, .shortSize h4⟩
  obtain ⟨n, ys, rfl, hn⟩ := split_prefix xs (by omega)
  by_cases hok : F.headerOk n = true
  swap
  · exact ⟨_, .badSize ys hn (by simpa using hok)⟩
  by_cases hl : ys.length < n
  · exact ⟨_, .shortHeader hn hok hl⟩
  obtain ⟨hb, zs, rfl, rfl⟩ := split_at ys (by omega : n ≤ ys.length)
  cases hp : F.parse hb with
  | none => exact ⟨_, .badHeader zs hn hok hp⟩
  | some h =>
    by_cases hbody : F.bodyOk (F.bodySize h) = true
    swap
    · exact ⟨_, .badBody zs hn hok hp (by simpa using hbody)⟩
    by_cases hz : zs.length < F.bodySize h
    · exact ⟨_, .shortBody hn hok hp hbody hz⟩
    obtain ⟨args, ws, rfl, ha⟩ := split_at zs (by omega : F.bodySize h ≤ zs.length)
    exact ⟨_, .frame ws hn hok hp hbody ha⟩

end Framing

end KimRpc.Library.HeaderFraming
