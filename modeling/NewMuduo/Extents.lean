import Mathlib.Order.Interval.Multiset
import Mathlib.Order.Interval.Finset.Nat
import Mathlib.Algebra.BigOperators.Group.Finset.Basic
import Mathlib.Algebra.Order.Group.Multiset
import Mathlib.Algebra.GroupWithZero.Nat

namespace NewMuduo

-- A stretch of addresses. Nothing here depends on what is kept there.
structure Extent where
  base : Nat
  size : Nat
  deriving DecidableEq, Repr

namespace Extent
variable {inner middle outer extent : Extent} {extents others : List Extent} {base size byte : Nat}

def bytes (extent : Extent) : Multiset Nat := Multiset.Ico extent.base (extent.base + extent.size)

def Within (inner outer : Extent) : Prop := outer.base ≤ inner.base ∧ inner.base + inner.size ≤ outer.base + outer.size

-- The bytes of all of them, with as many copies as there are extents over a byte.
def covered (extents : List Extent) : Multiset Nat := (extents.map bytes).sum

-- Blocks of one size, and the bases of a row of them.
def blocks (size : Nat) (bases : List Nat) : List Extent := bases.map fun base => ⟨base,size⟩

def row (base size : Nat) : Nat → List Nat
  | 0 => []
  | count + 1 => base :: row (base + size) size count

-- Stretches of these sizes, each where the one before ends.
def stretches (base : Nat) : List Nat → List Extent
  | [] => []
  | size :: rest => ⟨base,size⟩ :: stretches (base + size) rest

theorem mem_bytes : byte ∈ extent.bytes ↔ extent.base ≤ byte ∧ byte < extent.base + extent.size := Multiset.mem_Ico

theorem bytes_nodup (extent : Extent) : extent.bytes.Nodup := Multiset.nodup_Ico

theorem card_bytes (extent : Extent) : extent.bytes.card = extent.size := by
  have whole : extent.bytes.card = extent.base + extent.size - extent.base := Nat.card_Ico _ _
  rw [whole,Nat.add_sub_cancel_left]

-- There are no more bytes in an extent than its size.
theorem card_le {chosen : Multiset Nat} (once : chosen.Nodup) (inside : ∀ byte ∈ chosen, byte ∈ extent.bytes) :
    chosen.card ≤ extent.size := by
  rw [← card_bytes extent]
  exact Multiset.card_le_card ((Multiset.le_iff_subset once).mpr inside)

-- Between 0 and a bound there are fewer numbers than that.
theorem card_below {chosen : Multiset Nat} {bound : Nat} (some : 0 < bound) (once : chosen.Nodup)
    (inside : ∀ byte ∈ chosen, 0 < byte ∧ byte < bound) : chosen.card < bound := by
  have most : chosen.card ≤ bound - 1 := by
    refine @card_le ⟨1,bound - 1⟩ _ once fun byte member => ?_
    obtain ⟨real,under⟩ := inside byte member
    exact mem_bytes.mpr ⟨real,by dsimp only; omega⟩
  omega

theorem bytes_empty (base : Nat) : bytes ⟨base,0⟩ = 0 := Multiset.Ico_self base

theorem bytes_split (base first second : Nat) : bytes ⟨base,first + second⟩ = bytes ⟨base,first⟩ + bytes ⟨base + first,second⟩ := by
  unfold bytes
  dsimp only
  rw [← Nat.add_assoc]
  exact (Multiset.Ico_add_Ico_eq_Ico (Nat.le_add_right _ _) (Nat.le_add_right _ _)).symm

theorem Within.refl (extent : Extent) : Within extent extent := ⟨Nat.le_refl _,Nat.le_refl _⟩

theorem Within.trans (one : Within inner middle) (two : Within middle outer) : Within inner outer :=
  ⟨Nat.le_trans two.1 one.1,Nat.le_trans one.2 two.2⟩

@[simp] theorem covered_nil : covered [] = 0 := rfl

@[simp] theorem covered_cons : covered (extent :: extents) = extent.bytes + covered extents := by
  simp [covered]

theorem covered_append : covered (extents ++ others) = covered extents + covered others := by
  simp [covered]

theorem covered_perm (same : extents.Perm others) : covered extents = covered others := (same.map bytes).sum_eq

theorem mem_covered : byte ∈ covered extents ↔ ∃ extent ∈ extents, byte ∈ extent.bytes := by
  induction extents with
  | nil => simp
  | cons first rest ih => simp [ih]

theorem length_le_card (some : ∀ extent ∈ extents, 0 < extent.size) : extents.length ≤ (covered extents).card := by
  induction extents with
  | nil => exact Nat.zero_le _
  | cons first rest ih =>
    have tail := ih fun extent later => some extent (List.mem_cons_of_mem _ later)
    have head := some first List.mem_cons_self
    rw [covered_cons,Multiset.card_add,card_bytes,List.length_cons]
    omega

-- What lies beside all of them shares no byte with them.
theorem disjoint_covered (apart : ∀ other ∈ extents, extent.base + extent.size ≤ other.base ∨ other.base + other.size ≤ extent.base) :
    Disjoint extent.bytes (covered extents) := by
  refine Multiset.disjoint_left.mpr fun here there => ?_
  obtain ⟨other,member,inside⟩ := mem_covered.mp there
  have one := mem_bytes.mp here
  have two := mem_bytes.mp inside
  rcases apart other member with below | above
  · omega
  · omega

@[simp] theorem blocks_nil : blocks size [] = [] := rfl

@[simp] theorem blocks_cons {bases : List Nat} : blocks size (base :: bases) = ⟨base,size⟩ :: blocks size bases := rfl

theorem blocks_append {first second : List Nat} : blocks size (first ++ second) = blocks size first ++ blocks size second :=
  List.map_append

-- A row of blocks covers one stretch.
theorem covered_row (base size count : Nat) : covered (blocks size (row base size count)) = bytes ⟨base,size * count⟩ := by
  induction count generalizing base with
  | zero => exact (bytes_empty base).symm
  | succ count ih =>
    have longer : size * (count + 1) = size + size * count := by
      rw [Nat.mul_succ]
      exact Nat.add_comm _ _
    simp only [row,blocks_cons,covered_cons]
    rw [ih,longer,bytes_split]

theorem mem_row {count : Nat} (member : byte ∈ row base size count) : ∃ i < count, byte = base + size * i := by
  induction count generalizing base with
  | zero => cases member
  | succ count ih =>
    rcases List.mem_cons.mp member with rfl | later
    · exact ⟨0,Nat.succ_pos _,rfl⟩
    · obtain ⟨i,below,same⟩ := ih later
      refine ⟨i + 1,Nat.succ_lt_succ below,?_⟩
      rw [same,Nat.mul_succ]
      omega

theorem row_succ (base size count : Nat) : row base size (count + 1) = row base size count ++ [base + size * count] := by
  induction count generalizing base with
  | zero => rfl
  | succ count ih =>
    rw [row,ih,row,List.cons_append,Nat.mul_succ,Nat.add_assoc,Nat.add_comm size]

theorem length_row (base size count : Nat) : (row base size count).length = count := by
  induction count generalizing base with
  | zero => rfl
  | succ count ih => exact congrArg (· + 1) (ih _)

theorem row_eq (base size count : Nat) : row base size count = (List.range count).map fun i => base + size * i := by
  induction count with
  | zero => rfl
  | succ count ih => rw [row_succ,ih,List.range_succ,List.map_append,List.map_singleton]

theorem row_nodup (some : 0 < size) (base count : Nat) : (row base size count).Nodup := by
  induction count generalizing base with
  | zero => exact .nil
  | succ count ih =>
    refine List.nodup_cons.mpr ⟨fun member => ?_,ih _⟩
    obtain ⟨i,_,same⟩ := mem_row member
    omega

-- Rows of blocks on stretches of their length.
theorem covered_rows (size count : Nat) (bases : List Nat) :
    covered (blocks size (bases.flatMap fun base => row base size count)) = covered (bases.map fun base => ⟨base,size * count⟩) := by
  induction bases with
  | nil => rfl
  | cons base rest ih => rw [List.flatMap_cons,List.map_cons,covered_cons,← ih,blocks_append,covered_append,covered_row]

-- A base of a block that has bytes is one of them.
theorem base_mem_covered {bases : List Nat} (some : 0 < size) (member : base ∈ bases) : base ∈ covered (blocks size bases) :=
  mem_covered.mpr ⟨⟨base,size⟩,List.mem_map_of_mem member,mem_bytes.mpr ⟨Nat.le_refl _,Nat.lt_add_of_pos_right some⟩⟩

theorem row_inside {count : Nat} (some : 0 < size) (member : byte ∈ row base size count) : byte ∈ bytes ⟨base,size * count⟩ := by
  rw [← covered_row]
  exact base_mem_covered some member

section stretches
variable {sizes : List Nat}

theorem covered_stretches (base : Nat) (sizes : List Nat) : covered (stretches base sizes) = bytes ⟨base,sizes.sum⟩ := by
  induction sizes generalizing base with
  | nil => exact (bytes_empty base).symm
  | cons size rest ih => rw [stretches,covered_cons,ih,List.sum_cons,bytes_split]

theorem stretches_above (member : extent ∈ stretches base sizes) : base ≤ extent.base := by
  induction sizes generalizing base with
  | nil => cases member
  | cons size rest ih =>
    rcases List.mem_cons.mp member with rfl | later
    · exact Nat.le_refl _
    · exact Nat.le_trans (Nat.le_add_right _ _) (ih later)

theorem stretches_ordered (base : Nat) (sizes : List Nat) :
    (stretches base sizes).Pairwise fun first second => first.base + first.size ≤ second.base := by
  induction sizes generalizing base with
  | nil => exact .nil
  | cons size rest ih => exact .cons (fun _ member => stretches_above member) (ih _)

theorem stretches_adjacent (base : Nat) (sizes : List Nat) :
    (stretches base sizes).IsChain fun first second => first.base + first.size = second.base := by
  induction sizes generalizing base with
  | nil => exact .nil
  | cons size rest ih =>
    cases rest with
    | nil => exact .singleton _
    | cons next others => exact .cons_cons rfl (ih _)

theorem stretches_at (base : Nat) (sizes : List Nat) (n : Nat) :
    (stretches base sizes)[n]? = sizes[n]?.map fun size => ⟨base + (sizes.take n).sum,size⟩ := by
  induction sizes generalizing base n with
  | nil => rfl
  | cons size rest ih =>
    cases n with
    | zero => rfl
    | succ n =>
      rw [stretches,List.getElem?_cons_succ,List.getElem?_cons_succ,ih,List.take_succ_cons,List.sum_cons,Nat.add_assoc]

end stretches

-- Where no byte is covered twice, no two of them meet.
theorem pairwise_of_nodup (once : (covered extents).Nodup) : extents.Pairwise fun first second => Disjoint first.bytes second.bytes := by
  induction extents with
  | nil => exact .nil
  | cons first rest ih =>
    rw [covered_cons,Multiset.nodup_add] at once
    obtain ⟨_,tail,apart⟩ := once
    refine .cons (fun second member => ?_) (ih tail)
    refine Multiset.disjoint_left.mpr fun here there => ?_
    exact Multiset.disjoint_left.mp apart here (mem_covered.mpr ⟨second,member,there⟩)

-- Nor are two blocks that have bytes at one base.
theorem blocks_apart {bases : List Nat} (once : (covered (blocks size bases)).Nodup) :
    bases.Pairwise fun one other => Disjoint (bytes ⟨one,size⟩) (bytes ⟨other,size⟩) := by
  have pairwise := pairwise_of_nodup once
  unfold blocks at pairwise
  rw [List.pairwise_map] at pairwise
  exact pairwise

theorem bases_nodup {bases : List Nat} (some : 0 < size) (once : (covered (blocks size bases)).Nodup) : bases.Nodup := by
  refine (blocks_apart once).imp fun {one other} apart same => ?_
  have here : one ∈ bytes ⟨one,size⟩ := mem_bytes.mpr ⟨Nat.le_refl _,Nat.lt_add_of_pos_right some⟩
  rw [← same] at apart
  exact Multiset.disjoint_left.mp apart here here

end Extent

-- Bytes of blocks in numbered lists, of which one may change.
theorem sum_update_parts {Item : Type u} [AddCommMonoid Item] {Place : Type v} [DecidableEq Place] {Contents : Type w}
    (value : Place → Contents → Item) (contents : Place → Contents) {places : Finset Place} {place : Place} (inside : place ∈ places) :
    ∃ rest, ∀ next, ∑ i ∈ places, value i (Function.update contents place next i) = value place next + rest := by
  refine ⟨∑ i ∈ places.erase place, value i (contents i),fun next => ?_⟩
  rw [← Finset.add_sum_erase _ _ inside,Function.update_self]
  refine congrArg (value place next + ·) (Finset.sum_congr rfl fun i member => ?_)
  rw [Function.update_of_ne (Finset.ne_of_mem_erase member)]

end NewMuduo
