import NewMuduo.TaggedPointer

namespace NewMuduo.TaggedPointer
variable {addr other packed : BitVec 64} {version otherVersion : BitVec 16}

def kTagMask : BitVec 64 := 0xFFFF000000000000#64

-- The high 16 bits that the assert of pack expects of an address.
def signExt (addr : BitVec 64) : BitVec 64 := if addr &&& (1#64 <<< 47) ≠ 0 then kTagMask else 0

def Asserted (addr : BitVec 64) : Prop := addr &&& kTagMask = signExt addr ∨ addr = 0

instance (addr : BitVec 64) : Decidable (Asserted addr) := by
  unfold Asserted
  infer_instance

-- An address in the lower half of the canonical ones.
def Lower (addr : BitVec 64) : Prop := addr.getLsbD 47 = false

instance (addr : BitVec 64) : Decidable (Lower addr) := by
  unfold Lower
  infer_instance

theorem tagMask_bit : ∀ i < 64, kTagMask.getLsbD i = decide (48 ≤ i) := by
  decide

theorem half_bit : ∀ i < 64, (1#64 <<< 47).getLsbD i = decide (i = 47) := by
  decide

theorem lower_iff : Lower addr ↔ addr &&& (1#64 <<< 47) = 0 := by
  constructor
  · intro lower
    apply BitVec.eq_of_getLsbD_eq
    intro i below
    rw [BitVec.getLsbD_and,half_bit i below]
    by_cases here : i = 47
    · rw [here,show addr.getLsbD 47 = false from lower]
      simp
    · simp [here]
  · intro none
    have bit := congrArg (fun word => word.getLsbD 47) none
    simpa [Lower,half_bit 47 (by decide)] using bit

-- What the assert says bit by bit.
theorem Asserted.high (asserted : Asserted addr) (above : 48 ≤ i) (below : i < 64) : addr.getLsbD i = addr.getLsbD 47 := by
  rcases asserted with extended | rfl
  · have bit : (addr &&& kTagMask).getLsbD i = (signExt addr).getLsbD i := congrArg (fun word => word.getLsbD i) extended
    rw [BitVec.getLsbD_and,tagMask_bit i below,decide_eq_true above,Bool.and_true] at bit
    rw [bit]
    unfold signExt
    split
    · rename_i upper
      have set : addr.getLsbD 47 = true := Bool.of_not_eq_false fun lower => upper (lower_iff.mp lower)
      rw [tagMask_bit i below,decide_eq_true above,set]
    · rename_i lower
      have clear : addr.getLsbD 47 = false := lower_iff.mpr (not_not.mp lower)
      rw [clear]
      exact BitVec.getLsbD_zero
  · rw [BitVec.ofNat_eq_ofNat,BitVec.getLsbD_zero,BitVec.getLsbD_zero]

theorem Asserted.short (asserted : Asserted addr) (lower : Lower addr) : Short addr := by
  refine Nat.lt_pow_two_of_testBit _ fun i above => ?_
  by_cases below : i < 64
  · exact (asserted.high above below).trans lower
  · exact BitVec.getLsbD_of_ge addr i (Nat.le_of_not_lt below)

-- The tag does not reach bit 47.
theorem pack_half (addr : BitVec 64) (version : BitVec 16) : (pack addr version).getLsbD 47 = addr.getLsbD 47 := by
  rw [pack,BitVec.getLsbD_or,BitVec.getLsbD_shiftLeft]
  simp

theorem ptr_high (above : 48 ≤ i) (below : i < 64) : (ptr packed).getLsbD i = false := by
  rw [ptr_bit below,decide_eq_false (Nat.not_lt.mpr above),Bool.and_false]

-- The two halves of a pair, and no other pair with the same word.
def Unpacks (addr : BitVec 64) (version : BitVec 16) : Prop :=
  ptr (pack addr version) = addr ∧ tag (pack addr version) = version ∧
    ∀ other otherVersion, Asserted other → pack other otherVersion = pack addr version → other = addr ∧ otherVersion = version

theorem Lower.unpacks (asserted : Asserted addr) (lower : Lower addr) (version : BitVec 16) : Unpacks addr version := by
  have short := asserted.short lower
  refine ⟨ptr_pack short,tag_pack short,fun other otherVersion admitted same => ?_⟩
  have otherLower : Lower other := by
    have half : (pack other otherVersion).getLsbD 47 = (pack addr version).getLsbD 47 := by rw [same]
    rw [pack_half,pack_half] at half
    exact half.trans lower
  have otherShort := admitted.short otherLower
  have pointer : ptr (pack other otherVersion) = other := ptr_pack otherShort
  have number : tag (pack other otherVersion) = otherVersion := tag_pack otherShort
  rw [same] at pointer number
  exact ⟨pointer.symm.trans (ptr_pack short),number.symm.trans (tag_pack short)⟩

-- ptr() has its high bits clear, whatever bit 47 is.
theorem Asserted.lower_of_ptr (asserted : Asserted addr) (same : ptr packed = addr) : Lower addr := by
  have high := asserted.high (by decide : 48 ≤ 63) (by decide)
  rw [← same,ptr_high (by decide) (by decide)] at high
  rw [← same]
  exact high.symm

theorem unpacks_iff_lower (asserted : Asserted addr) : Unpacks addr version ↔ Lower addr :=
  ⟨fun unpacks => asserted.lower_of_ptr unpacks.1,fun lower => lower.unpacks asserted version⟩

theorem highest_user_address_unpacks : Unpacks 0x00007FFFFFFFFFF0#64 0xFFFF#16 :=
  (unpacks_iff_lower (by decide)).mpr (by decide)

-- The lowest address with bit 47 set passes the assert, loses its high bits and
-- has one word for all tags.
theorem upper_half_lost : Asserted 0xFFFF800000000000#64 ∧ ptr (pack 0xFFFF800000000000#64 1) = 0x0000800000000000#64 ∧
    tag (pack 0xFFFF800000000000#64 1) = 0xFFFF#16 ∧ pack 0xFFFF800000000000#64 1 = pack 0xFFFF800000000000#64 2 ∧
    ¬Unpacks 0xFFFF800000000000#64 1 := by
  refine ⟨by decide,by decide,by decide,by decide,fun unpacks => ?_⟩
  exact absurd unpacks.1 (by decide)

-- HeadProxy::load packs the pointer part of the word again, whose high bits are
-- clear: its assert fails on the words of the upper half.
theorem load_asserted_iff : Asserted (ptr packed) ↔ packed.getLsbD 47 = false := by
  have half : (ptr packed).getLsbD 47 = packed.getLsbD 47 := by
    rw [ptr_bit (by decide)]
    exact Bool.and_true _
  constructor
  · intro asserted
    rw [← half,← asserted.high (by decide : 48 ≤ 63) (by decide)]
    exact ptr_high (by decide) (by decide)
  · intro clear
    have lower : Lower (ptr packed) := half.trans clear
    left
    unfold signExt
    rw [lower_iff.mp lower]
    apply BitVec.eq_of_getLsbD_eq
    intro i below
    rw [BitVec.getLsbD_and,tagMask_bit i below]
    by_cases above : 48 ≤ i
    · rw [ptr_high above below]
      simp
    · simp [above]

end NewMuduo.TaggedPointer
