import KimRpc.Server.Reactor

/-! The raw completions of the ring. A completion names its operation by 64 bits of user data,
a pointer with the kind above it, and its buffer by the upper half of its flags. -/

namespace KimRpc.Server

open Wire

def kEventShift : UInt64 := 48
def kPtrMask : UInt64 := (1 <<< kEventShift) - 1
def kCoroTagBit : UInt64 := (1 : UInt64) <<< (63 : UInt64)
def IORING_CQE_F_BUFFER : UInt32 := 1
def IORING_CQE_BUFFER_SHIFT : UInt32 := 16

def OpType.code : OpType → UInt64
  | .accept => 0
  | .recv => 1
  | .send => 2
  | .notify => 3

def OpType.ofCode : UInt64 → Option OpType
  | 0 => some .accept
  | 1 => some .recv
  | 2 => some .send
  | 3 => some .notify
  | _ => none

def packUserData (ctx : UInt64) (op : OpType) : UInt64 :=
  (ctx &&& kPtrMask) ||| (op.code <<< kEventShift)

def unpackCtx (ud : UInt64) : UInt64 := ud &&& kPtrMask

def unpackOp (ud : UInt64) : Option OpType := OpType.ofCode (ud >>> kEventShift)

def isCoroUserData (ud : UInt64) : Bool := ud &&& kCoroTagBit ≠ 0

def bufferFlags (bid : ℕ) : UInt32 :=
  (UInt32.ofNat bid <<< IORING_CQE_BUFFER_SHIFT) ||| IORING_CQE_F_BUFFER

def selected (flags : UInt32) : Option ℕ :=
  if flags &&& IORING_CQE_F_BUFFER ≠ 0 then some (flags >>> IORING_CQE_BUFFER_SHIFT).toNat else none

section

variable {ctx : UInt64} {op : OpType}

lemma code_lt (op : OpType) : op.code.toNat < 4 := by cases op <;> decide

lemma mask_of_lt (h : ctx.toNat < 2 ^ 48) : ctx &&& kPtrMask = ctx := by
  apply UInt64.toNat_inj.mp
  have hmask : kPtrMask.toNat = 2 ^ 48 - 1 := by decide
  rw [UInt64.toNat_and, hmask, Nat.and_two_pow_sub_one_eq_mod, Nat.mod_eq_of_lt h]

lemma toNat_packUserData (op : OpType) (h : ctx.toNat < 2 ^ 48) :
    (packUserData ctx op).toNat = op.code.toNat * 2 ^ 48 + ctx.toNat := by
  have hcode := code_lt op
  have hshift : (op.code <<< kEventShift).toNat = op.code.toNat <<< 48 := by cases op <;> decide
  rw [packUserData, mask_of_lt h, UInt64.toNat_or, hshift, Nat.or_comm,
    ← Nat.shiftLeft_add_eq_or_of_lt h, Nat.shiftLeft_eq]

lemma unpack_packUserData (op : OpType) (h : ctx.toNat < 2 ^ 48) :
    unpackCtx (packUserData ctx op) = ctx ∧ unpackOp (packUserData ctx op) = some op := by
  have hpack := toNat_packUserData op h
  constructor
  · apply UInt64.toNat_inj.mp
    have hmask : kPtrMask.toNat = 2 ^ 48 - 1 := by decide
    rw [unpackCtx, UInt64.toNat_and, hmask, Nat.and_two_pow_sub_one_eq_mod, hpack]
    omega
  · have hcode : packUserData ctx op >>> kEventShift = op.code := by
      apply UInt64.toNat_inj.mp
      rw [UInt64.toNat_shiftRight, hpack, show kEventShift.toNat % 64 =
        48 by decide, Nat.shiftRight_eq_div_pow]
      omega
    rw [unpackOp, hcode]
    cases op <;> rfl

lemma packUserData_not_coro (h : ctx.toNat < 2 ^ 48) :
    isCoroUserData (packUserData ctx op) = false := by
  have hpack := toNat_packUserData op h
  have hcode := code_lt op
  have hand : packUserData ctx op &&& kCoroTagBit = 0 := by
    apply UInt64.toNat_inj.mp
    have htag : kCoroTagBit.toNat = 2 ^ 63 := by decide
    have hsmall : (packUserData ctx op).toNat < 2 ^ 63 := by omega
    rw [UInt64.toNat_and, htag]
    refine Nat.eq_of_testBit_eq (fun i => ?_)
    simp only [Nat.testBit_and, Nat.testBit_two_pow, UInt64.toNat_zero, Nat.zero_testBit]
    by_cases hi : 63 = i
    · rw [← hi, Nat.testBit_lt_two_pow hsmall, Bool.false_and]
    · simp [hi]
  simp [isCoroUserData, hand]

lemma selected_bufferFlags {bid : ℕ} (h : bid < 2 ^ 16) :
    selected (bufferFlags bid) = some bid := by
  have hsixteen : IORING_CQE_BUFFER_SHIFT.toNat % 32 = 16 := by decide
  have hshift : (UInt32.ofNat bid <<< IORING_CQE_BUFFER_SHIFT).toNat = bid <<< 16 := by
    rw [UInt32.toNat_shiftLeft, hsixteen, UInt32.toNat_ofNat']
    rw [Nat.mod_eq_of_lt (h.trans (by norm_num)), Nat.shiftLeft_eq]
    omega
  have hflags : (bufferFlags bid).toNat = bid * 2 ^ 16 + 1 := by
    rw [bufferFlags, UInt32.toNat_or, hshift, show IORING_CQE_F_BUFFER.toNat = 1 by decide,
      ← Nat.shiftLeft_add_eq_or_of_lt (by norm_num), Nat.shiftLeft_eq]
  have hset : bufferFlags bid &&& IORING_CQE_F_BUFFER ≠ 0 := by
    intro heq
    have hval := congrArg UInt32.toNat heq
    rw [UInt32.toNat_and, hflags, show IORING_CQE_F_BUFFER.toNat = 2 ^ 1 - 1 by decide,
      Nat.and_two_pow_sub_one_eq_mod] at hval
    simp only [UInt32.toNat_zero] at hval
    omega
  have hdiv : (bid * 2 ^ 16 + 1) / 2 ^ 16 = bid := by omega
  rw [selected, if_pos hset, UInt32.toNat_shiftRight, hflags, hsixteen, Nat.shiftRight_eq_div_pow,
    hdiv]

lemma selected_zero : selected 0 = none := rfl

end

end KimRpc.Server
