import Mathlib
import NewMuduo.Integers

namespace NewMuduo

-- base/Logging.h: buffer_ and the room it has.
structure LogStream where
  buffer : String
  capacity : Nat
  fits : buffer.length ≤ capacity

namespace LogStream
variable {s : LogStream} {t : IntType} {buf : Nat → Char} {p n : Nat} {v : Int}

def kMaxNumericSize : Nat := 48

def reserve (s : LogStream) (capacity : Nat) : LogStream :=
  {s with capacity := max s.capacity capacity,fits := Nat.le_trans s.fits (Nat.le_max_left _ _)}

def append (s : LogStream) (text : String) : LogStream :=
  ⟨s.buffer ++ text,max s.capacity (s.buffer ++ text).length,Nat.le_max_right _ _⟩

-- "0123456789"[i], which has a digit for these ten indices only.
def digit (i : Int) : Option Char := if i < 0 then none else "0123456789".toList[i.toNat]?

-- *--p = c in char buf[48]. There is no room in front of buf.
def put (buf : Nat → Char) (p : Nat) (c : Char) : Option ((Nat → Char) × Nat) :=
  match p with
  | 0 => none
  | p + 1 => some (Function.update buf p c,p)

-- The loop of formatInteger.
def putDigits (t : IntType) (buf : Nat → Char) : Nat → Int → Option ((Nat → Char) × Nat)
  | 0,_ => none
  | p + 1,v => do
    let c ← digit (v.tmod 10)
    let buf := Function.update buf p c
    let v := t.convert (v.tdiv 10)
    if 0 < v then putDigits t buf p v else some (buf,p)

-- buf from p to its end.
def written (buf : Nat → Char) (p : Nat) : List Char := (List.range' p (kMaxNumericSize - p)).map buf

-- The first lines of formatInteger.
def ensureRoom (s : LogStream) : LogStream :=
  if s.capacity - s.buffer.length < kMaxNumericSize then s.reserve (s.buffer.length + kMaxNumericSize) else s

-- buf is what the stack holds before; a negation and a quotient are converted
-- back to the type.
def formatInteger (s : LogStream) (t : IntType) (buf : Nat → Char) (v : Int) : Option LogStream :=
  let s := s.ensureRoom
  let neg := t.signed && decide (v < 0)
  let v := if neg then t.convert (-v) else v
  do
    let (buf,p) ← putDigits t buf kMaxNumericSize v
    let (buf,p) ← if neg then put buf p '-' else some (buf,p)
    some (s.append (String.ofList (written buf p)))

-- The integer types that operator<< is there for.
inductive Overload where
  | short
  | unsignedShort
  | int
  | unsignedInt
  | long
  | unsignedLong
  | longLong
  | unsignedLongLong
  deriving DecidableEq, Repr

def Overload.type : Overload → IntType
  | .short => .short
  | .unsignedShort => .unsignedShort
  | .int => .int
  | .unsignedInt => .unsignedInt
  | .long | .longLong => .long
  | .unsignedLong | .unsignedLongLong => .unsignedLong

-- operator<<
def shl (s : LogStream) (overload : Overload) (buf : Nat → Char) (v : Int) : Option LogStream := s.formatInteger overload.type buf v

theorem digit_eq : ∀ n < 10, digit (n : Nat) = some n.digitChar := by
  decide

theorem digit_negative (negative : v < 0) : digit v = none := if_pos negative

theorem written_put (below : p < kMaxNumericSize) (c : Char) : written (Function.update buf p c) p = c :: written buf (p + 1) := by
  have longer : kMaxNumericSize - p = kMaxNumericSize - (p + 1) + 1 := by omega
  unfold written
  rw [longer,List.range'_succ,List.map_cons,Function.update_self]
  refine congrArg _ (List.map_congr_left fun i member => Function.update_of_ne ?_ _ _)
  have above := (List.mem_range'_1.mp member).1
  omega

-- The digits of a number come out from the last to the first.
theorem putDigits_parts (held : t.Holds n) (room : (Nat.toDigits 10 n).length ≤ p) (inside : p ≤ kMaxNumericSize) :
    ∃ after q, putDigits t buf p n = some (after,q) ∧ q + (Nat.toDigits 10 n).length = p ∧
      written after q = Nat.toDigits 10 n ++ written buf p := by
  induction p generalizing n buf with
  | zero => exact absurd room (Nat.not_le.mpr Nat.length_toDigits_pos)
  | succ p ih =>
    have last : digit ((n : Int).tmod 10) = some (n % 10).digitChar := digit_eq _ (Nat.mod_lt n (by decide))
    have quotient : t.convert ((n : Int).tdiv 10) = (n / 10 : Nat) := by
      refine IntType.convert_of_holds ?_
      exact t.holds_zero.between held (Int.natCast_nonneg _) (Int.ofNat_le.mpr (Nat.div_le_self n 10))
    have here : written (Function.update buf p (n % 10).digitChar) p = (n % 10).digitChar :: written buf (p + 1) :=
      written_put inside _
    unfold putDigits
    simp only [last,quotient,Option.bind_eq_bind,Option.bind_some]
    rw [Nat.toDigits_eq_if (by decide)] at room ⊢
    by_cases single : n < 10
    · have done : ¬(0 : Int) < (n / 10 : Nat) := by omega
      rw [if_pos single,if_neg done]
      rw [Nat.mod_eq_of_lt single] at here ⊢
      exact ⟨_,p,rfl,rfl,here⟩
    · have more : (0 : Int) < (n / 10 : Nat) := by omega
      rw [if_neg single,List.length_append] at room
      have smaller : t.Holds (n / 10 : Nat) :=
        t.holds_zero.between held (Int.natCast_nonneg _) (Int.ofNat_le.mpr (Nat.div_le_self n 10))
      obtain ⟨after,q,ran,count,text⟩ := ih smaller (Nat.le_of_succ_le_succ room)
        (Nat.le_of_succ_le inside)
      rw [if_neg single,if_pos more]
      refine ⟨after,q,ran,?_,?_⟩
      · rw [List.length_append,← Nat.add_assoc,count]
        rfl
      · rw [text,here,List.append_assoc]
        rfl

-- A negative number has no digit in the string.
theorem putDigits_negative (negative : v.tmod 10 < 0) : putDigits t buf p v = none := by
  cases p with
  | zero => rfl
  | succ p =>
    unfold putDigits
    rw [digit_negative negative]
    rfl

@[simp] theorem append_buffer (s : LogStream) (text : String) : (s.append text).buffer = s.buffer ++ text := rfl

@[simp] theorem ensureRoom_buffer (s : LogStream) : s.ensureRoom.buffer = s.buffer := by
  unfold ensureRoom
  split <;> rfl

-- 20 digits at most, and a sign in front.
theorem putDigits_whole (held : t.Holds n) (narrow : t.bits ≤ 64) (buf : Nat → Char) :
    ∃ after q, putDigits t buf kMaxNumericSize n = some (after,q + 1) ∧ q < kMaxNumericSize ∧
      written after (q + 1) = Nat.toDigits 10 n := by
  have small : n < 10 ^ 20 := by
    have most := held.2
    have bound : (2 : Int) ^ t.bits ≤ 2 ^ 64 := pow_le_pow_right₀ (by decide) narrow
    have half := t.twice_half
    have positive := t.half_positive
    unfold IntType.highest at most
    split at most <;> omega
  have few : (Nat.toDigits 10 n).length ≤ 20 := (Nat.length_toDigits_le_iff (by decide) (by decide)).mpr small
  obtain ⟨after,q,ran,count,text⟩ := putDigits_parts held (Nat.le_trans few (by decide)) (Nat.le_refl _)
  have some : 0 < (Nat.toDigits 10 n).length := Nat.length_toDigits_pos
  have size : kMaxNumericSize = 48 := rfl
  cases q with
  | zero => omega
  | succ q => exact ⟨after,q,ran,by omega,text.trans (List.append_nil _)⟩

theorem formatInteger_unsigned (held : t.Holds n) (narrow : t.bits ≤ 64) (s : LogStream) (buf : Nat → Char) :
    ∃ after, s.formatInteger t buf n = some after ∧ after.buffer = s.buffer ++ Nat.repr n := by
  obtain ⟨filled,q,ran,_,text⟩ := putDigits_whole held narrow buf
  have plus : (t.signed && decide ((n : Int) < 0)) = false := by
    rw [decide_eq_false (Int.not_lt.mpr (Int.natCast_nonneg n)),Bool.and_false]
  refine ⟨s.ensureRoom.append (String.ofList (written filled (q + 1))),?_,?_⟩
  · unfold formatInteger
    simp only [plus,ran,Option.bind_eq_bind,Option.bind_some,Bool.false_eq_true,if_false]
  · rw [append_buffer,ensureRoom_buffer,text,Nat.repr_eq_ofList_toDigits]

theorem formatInteger_negative (signed : t.signed = true) (held : t.Holds (n + 1 : Nat)) (narrow : t.bits ≤ 64) (s : LogStream) (buf : Nat → Char) :
    ∃ after, s.formatInteger t buf (-(n + 1 : Nat)) = some after ∧ after.buffer = s.buffer ++ ("-" ++ Nat.repr (n + 1)) := by
  obtain ⟨filled,q,ran,inside,text⟩ := putDigits_whole held narrow buf
  have minus : (t.signed && decide (-((n + 1 : Nat) : Int) < 0)) = true := by
    rw [signed,decide_eq_true (by omega)]
    rfl
  have back : t.convert (- -((n + 1 : Nat) : Int)) = (n + 1 : Nat) := by
    rw [Int.neg_neg]
    exact IntType.convert_of_holds held
  refine ⟨s.ensureRoom.append (String.ofList (written (Function.update filled q '-') q)),?_,?_⟩
  · unfold formatInteger
    simp only [minus,back,ran,Option.bind_eq_bind,Option.bind_some,if_true,put]
  · rw [append_buffer,ensureRoom_buffer,written_put inside,text,Nat.repr_eq_ofList_toDigits]
    exact congrArg (s.buffer ++ ·) String.ofList_cons

theorem Overload.narrow (overload : Overload) : overload.type.bits ≤ 64 := by
  cases overload <;> decide

-- 10 does not divide a power of 2.
theorem Overload.lowest_negative (overload : Overload) (signed : overload.type.signed = true) :
    overload.type.lowest < 0 ∧ overload.type.lowest.tmod 10 < 0 := by
  cases overload with
  | short | int | long | longLong => decide
  | unsignedShort | unsignedInt | unsignedLong | unsignedLongLong => cases signed

-- The lowest value of a signed type is its own negation, and its last digit is
-- looked up with a negative index.
theorem shl_lowest (overload : Overload) (signed : overload.type.signed = true) (s : LogStream) (buf : Nat → Char) :
    s.shl overload buf overload.type.lowest = none := by
  obtain ⟨negative,last⟩ := overload.lowest_negative signed
  have minus : (overload.type.signed && decide (overload.type.lowest < 0)) = true := by
    rw [signed,decide_eq_true negative]
    rfl
  unfold shl formatInteger
  simp only [minus,if_true,IntType.convert_neg_lowest signed,putDigits_negative last,Option.bind_eq_bind,Option.bind_none]

-- buffer_ gets the decimal numeral of v behind what it has, and nothing else.
def Formats (s : LogStream) (overload : Overload) (buf : Nat → Char) (v : Int) : Prop :=
  ∃ after, s.shl overload buf v = some after ∧ after.buffer = s.buffer ++ v.repr ∧ v.repr.toInt? = some v

theorem formats_iff_above_lowest {overload : Overload} (held : overload.type.Holds v) :
    s.Formats overload buf v ↔ ¬(overload.type.signed = true ∧ v = overload.type.lowest) := by
  constructor
  · rintro ⟨after,formatted,_⟩ ⟨signed,rfl⟩
    rw [shl_lowest overload signed] at formatted
    cases formatted
  · intro above
    suffices formatted : ∃ after, s.shl overload buf v = some after ∧ after.buffer = s.buffer ++ v.repr by
      obtain ⟨after,ran,text⟩ := formatted
      exact ⟨after,ran,text,Int.toInt?_repr v⟩
    cases v with
    | ofNat n => exact formatInteger_unsigned held overload.narrow s buf
    | negSucc n =>
      have signed := IntType.signed_of_negative held (Int.negSucc_lt_zero n)
      have opposite := IntType.neg_holds held signed fun lowest => above ⟨signed,lowest⟩
      exact formatInteger_negative signed opposite overload.narrow s buf

-- A new stream, whose string has its first 15 characters in place.
def empty : LogStream := ⟨"",15,Nat.zero_le _⟩

theorem formats_next_to_lowest : empty.Formats .long (fun _ => ' ') (-9223372036854775807) :=
  (formats_iff_above_lowest (by decide)).mpr (by decide)

theorem lowest_int_not_formatted : IntType.int.Holds (-2147483648) ∧ empty.shl .int (fun _ => ' ') (-2147483648) = none ∧
    ¬empty.Formats .int (fun _ => ' ') (-2147483648) := by
  have none : empty.shl .int (fun _ => ' ') (-2147483648) = none := by rfl
  refine ⟨by decide,none,?_⟩
  rintro ⟨after,formatted,_⟩
  rw [none] at formatted
  cases formatted

end LogStream
end NewMuduo
