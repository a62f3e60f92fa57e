import Mathlib.Algebra.Ring.Int.Defs
import Mathlib.Algebra.Group.Nat.Defs
import Mathlib.Tactic.Common

namespace NewMuduo

-- A C++ integer type: a value is the integer it stands for. Nothing here depends
-- on which program computes with it.
structure IntType where
  bits : Nat
  signed : Bool
  positive : 0 < bits := by decide
  deriving DecidableEq

namespace IntType
variable {t : IntType} {v w : Int}

def lowest (t : IntType) : Int := if t.signed then -2 ^ (t.bits - 1) else 0

def highest (t : IntType) : Int := if t.signed then 2 ^ (t.bits - 1) - 1 else 2 ^ t.bits - 1

def Holds (t : IntType) (v : Int) : Prop := t.lowest ≤ v ∧ v ≤ t.highest

instance (t : IntType) (v : Int) : Decidable (t.Holds v) := by
  unfold Holds
  infer_instance

-- Conversion to the type, modulo 2^bits.
def convert (t : IntType) (v : Int) : Int := if t.signed then v.bmod (2 ^ t.bits) else v % 2 ^ t.bits

def short : IntType := {bits := 16,signed := true}
def unsignedShort : IntType := {bits := 16,signed := false}
def int : IntType := {bits := 32,signed := true}
def unsignedInt : IntType := {bits := 32,signed := false}
def long : IntType := {bits := 64,signed := true}
def unsignedLong : IntType := {bits := 64,signed := false}
def size_t : IntType := unsignedLong
def ssize_t : IntType := long

theorem twice_half (t : IntType) : (2 : Int) ^ t.bits = 2 * 2 ^ (t.bits - 1) := by
  have same : t.bits = t.bits - 1 + 1 := (Nat.sub_add_cancel t.positive).symm
  rw [same,Nat.add_sub_cancel,Int.pow_succ,Int.mul_comm]

theorem half_positive (t : IntType) : (0 : Int) < 2 ^ (t.bits - 1) := Int.pow_pos (by decide)

-- A value of the type stays what it is.
theorem convert_of_holds (held : t.Holds v) : t.convert v = v := by
  obtain ⟨least,most⟩ := held
  have twice := t.twice_half
  have half := t.half_positive
  unfold lowest at least
  unfold highest at most
  unfold convert
  by_cases signed : t.signed = true
  · rw [if_pos signed] at least most ⊢
    refine Int.bmod_eq_of_le_mul_two ?_ ?_
    · push_cast
      omega
    · push_cast
      omega
  · rw [if_neg signed] at least most ⊢
    exact Int.emod_eq_of_lt least (by omega)

theorem Holds.between (least : t.Holds v) (most : t.Holds w) (above : v ≤ x) (below : x ≤ w) : t.Holds x :=
  ⟨Int.le_trans least.1 above,Int.le_trans below most.2⟩

theorem holds_zero (t : IntType) : t.Holds 0 := by
  have half := t.half_positive
  have twice := t.twice_half
  unfold Holds lowest highest
  split <;> omega

theorem signed_of_negative (held : t.Holds v) (negative : v < 0) : t.signed = true := by
  by_contra unsigned
  have least := held.1
  unfold lowest at least
  rw [if_neg unsigned] at least
  exact absurd negative (Int.not_lt.mpr least)

-- The negation of the lowest value of a signed type is that value again.
theorem convert_neg_lowest (signed : t.signed = true) : t.convert (-t.lowest) = t.lowest := by
  have half := t.half_positive
  unfold convert lowest
  rw [if_pos signed,if_pos signed,Int.neg_neg]
  refine Int.bmod_eq_neg (Int.le_of_lt half) ?_
  push_cast
  exact t.twice_half

theorem holds_of_le (some : 0 ≤ v) (few : v ≤ t.highest) : t.Holds v := ⟨Int.le_trans t.holds_zero.1 some,few⟩

-- All other values have their negation.
theorem neg_holds (held : t.Holds v) (signed : t.signed = true) (above : v ≠ t.lowest) : t.Holds (-v) := by
  unfold Holds lowest highest at *
  simp only [signed,if_true] at *
  omega

end IntType
end NewMuduo
