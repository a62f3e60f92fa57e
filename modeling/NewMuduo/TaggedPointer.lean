import Mathlib.Data.BitVec

-- base/TaggedPointer.h: a pointer in the low 48 bits of a word and a version
-- number in the high 16.
namespace NewMuduo.TaggedPointer

def ptr (packed : BitVec 64) : BitVec 64 := packed &&& 0x0000FFFFFFFFFFFF#64

def tag (packed : BitVec 64) : BitVec 16 := (packed >>> 48).truncate 16

def pack (addr : BitVec 64) (tag : BitVec 16) : BitVec 64 := addr ||| tag.zeroExtend 64 <<< 48

-- A user-space address, which leaves the high 16 bits clear.
def Short (addr : BitVec 64) : Prop := addr.toNat < 2 ^ 48

theorem mask_bit : ∀ i < 64, (0x0000FFFFFFFFFFFF#64).getLsbD i = decide (i < 48) := by
  decide

theorem Short.high (short : Short addr) (above : 48 ≤ i) : addr.getLsbD i = false := by
  apply Nat.testBit_lt_two_pow
  exact Nat.lt_of_lt_of_le short (Nat.pow_le_pow_right (by omega) above)

theorem short_zero : Short 0 := by
  unfold Short
  decide

theorem ptr_bit (below : i < 64) : (ptr packed).getLsbD i = (packed.getLsbD i && decide (i < 48)) := by
  rw [ptr,BitVec.getLsbD_and,mask_bit i below]

theorem tag_bit : (tag packed).getLsbD i = (decide (i < 16) && packed.getLsbD (48 + i)) := by
  simp [tag]

theorem ptr_pack (short : Short addr) : ptr (pack addr version) = addr := by
  apply BitVec.eq_of_getLsbD_eq
  intro i below
  rw [ptr_bit below]
  by_cases low : i < 48
  · simp [pack,low]
  · simp [low,short.high (Nat.le_of_not_lt low)]

theorem tag_pack (short : Short addr) : tag (pack addr version) = version := by
  apply BitVec.eq_of_getLsbD_eq
  intro i below
  rw [tag_bit,pack,BitVec.getLsbD_or,short.high (Nat.le_add_right 48 i)]
  have inside : 48 + i < 64 := by omega
  simp [below,inside]

-- A word taken apart and packed again.
theorem pack_parts (packed : BitVec 64) : pack (ptr packed) (tag packed) = packed := by
  apply BitVec.eq_of_getLsbD_eq
  intro i below
  rw [pack,BitVec.getLsbD_or,ptr_bit below,BitVec.getLsbD_shiftLeft,BitVec.getLsbD_setWidth,tag_bit]
  by_cases low : i < 48
  · simp [low]
  · have high : 48 + (i - 48) = i := by omega
    have short : i - 48 < 16 ∧ i - 48 < 64 := by omega
    rw [high]
    simp [low,below,short]

end NewMuduo.TaggedPointer
