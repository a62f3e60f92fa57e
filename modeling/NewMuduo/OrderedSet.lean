import Mathlib.Order.Basic
import Mathlib.Order.Defs.LinearOrder
import Mathlib.Order.Lattice

namespace NewMuduo

-- A set kept as its elements in increasing order, as std::set is.
structure OrderedSet (α : Type u) [LinearOrder α] where
  items : List α
  sorted : items.Pairwise (· < ·)

namespace OrderedSet
variable {α : Type u} [LinearOrder α] {s : OrderedSet α} {a b : α}

instance : Membership α (OrderedSet α) := ⟨fun s a => a ∈ s.items⟩

instance : EmptyCollection (OrderedSet α) := ⟨⟨[],.nil⟩⟩

theorem mem_items : a ∈ s.items ↔ a ∈ s := Iff.rfl

@[simp] theorem not_mem_empty : a ∉ (∅ : OrderedSet α) := List.not_mem_nil

def insertItem (a : α) : List α → List α
  | [] => [a]
  | b :: rest => if a < b then a :: b :: rest else if a = b then b :: rest else b :: insertItem a rest

theorem mem_insertItem {items : List α} : b ∈ insertItem a items ↔ b = a ∨ b ∈ items := by
  induction items with
  | nil => simp [insertItem]
  | cons c rest ih =>
    unfold insertItem
    split
    · simp
    · split
      · rename_i same; simp [same]
      · simp only [List.mem_cons,ih]
        exact or_left_comm

theorem insertItem_sorted {items : List α} (sorted : items.Pairwise (· < ·)) : (insertItem a items).Pairwise (· < ·) := by
  induction items with
  | nil => exact List.pairwise_singleton _ a
  | cons c rest ih =>
    obtain ⟨least,tail⟩ := List.pairwise_cons.mp sorted
    unfold insertItem
    split
    · rename_i below
      refine List.pairwise_cons.mpr ⟨?_,sorted⟩
      intro b found
      rcases List.mem_cons.mp found with rfl | later
      · exact below
      · exact lt_trans below (least b later)
    · split
      · exact sorted
      · rename_i above other
        refine List.pairwise_cons.mpr ⟨?_,ih tail⟩
        intro b found
        rcases mem_insertItem.mp found with rfl | later
        · exact lt_of_le_of_ne (not_lt.mp above) (Ne.symm other)
        · exact least b later

def insert (s : OrderedSet α) (a : α) : OrderedSet α := ⟨insertItem a s.items,insertItem_sorted s.sorted⟩

@[simp] theorem mem_insert : b ∈ s.insert a ↔ b = a ∨ b ∈ s := mem_insertItem

def erase (s : OrderedSet α) (a : α) : OrderedSet α := ⟨s.items.filter (· ≠ a),s.sorted.filter _⟩

@[simp] theorem mem_erase : b ∈ s.erase a ↔ b ∈ s ∧ b ≠ a := by
  change b ∈ s.items.filter _ ↔ _
  simp [mem_items]

-- *begin(), where there is one.
def first (s : OrderedSet α) : Option α := s.items.head?

theorem first_none : s.first = none ↔ ∀ a, a ∉ s := by
  unfold first
  rw [List.head?_eq_none_iff,List.eq_nil_iff_forall_not_mem]
  rfl

theorem first_mem (found : s.first = some a) : a ∈ s := List.mem_of_head? found

theorem first_le (found : s.first = some a) (member : b ∈ s) : a ≤ b := by
  obtain ⟨rest,items⟩ := List.head?_eq_some_iff.mp found
  have sorted := s.sorted
  rw [items] at sorted
  rw [← mem_items,items] at member
  rcases List.mem_cons.mp member with rfl | later
  · exact le_refl b
  · exact le_of_lt ((List.pairwise_cons.mp sorted).1 b later)

-- The elements before lower_bound(last), and the others.
def below (s : OrderedSet α) (last : α) : List α := s.items.filter (· < last)

def above (s : OrderedSet α) (last : α) : OrderedSet α := ⟨s.items.filter (¬· < last),s.sorted.filter _⟩

theorem mem_below {last : α} : a ∈ s.below last ↔ a ∈ s ∧ a < last := by simp [below,mem_items]

theorem mem_above {last : α} : a ∈ s.above last ↔ a ∈ s ∧ ¬a < last := by
  change a ∈ s.items.filter _ ↔ _
  simp [mem_items]

theorem below_nodup {last : α} : (s.below last).Nodup := (s.sorted.imp fun less => ne_of_lt less).filter _

end OrderedSet
end NewMuduo
