import Mathlib.Data.List.Basic

namespace NewMuduo
variable {α : Type u} {cells data : List α}

-- A flat array as a list: the window between two indices, a copy to an index,
-- and the change of length of a vector.
def slice (cells : List α) (first last : Nat) : List α := (cells.drop first).take (last - first)

def overwrite (cells : List α) (first : Nat) (data : List α) : List α :=
  cells.take first ++ data ++ cells.drop (first + data.length)

def resize (cells : List α) (size : Nat) (blank : α) : List α :=
  cells.take size ++ List.replicate (size - cells.length) blank

theorem slice_length (bound : last ≤ cells.length) : (slice cells first last).length = last - first := by
  rw [slice,List.length_take,List.length_drop]
  omega

@[simp] theorem slice_same : slice cells first first = [] := by simp [slice]

theorem slice_append (low : first ≤ middle) (high : middle ≤ last) :
    slice cells first middle ++ slice cells middle last = slice cells first last := by
  have front : slice cells first middle = (slice cells first last).take (middle - first) := by
    rw [slice,slice,List.take_take,Nat.min_eq_left (by omega)]
  have back : slice cells middle last = (slice cells first last).drop (middle - first) := by
    rw [slice,slice,List.drop_take,List.drop_drop]
    congr 1
    · omega
    · congr 1; omega
  rw [front,back,List.take_append_drop]

theorem slice_drop (low : first ≤ middle) (high : middle ≤ last) :
    slice cells middle last = (slice cells first last).drop (middle - first) := by
  rw [slice,slice,List.drop_take,List.drop_drop]
  congr 1
  · omega
  · congr 1; omega

theorem slice_take (low : middle ≤ last) :
    slice cells first middle = (slice cells first last).take (middle - first) := by
  rw [slice,slice,List.take_take,Nat.min_eq_left (by omega)]

theorem overwrite_length (bound : first + data.length ≤ cells.length) :
    (overwrite cells first data).length = cells.length := by
  simp only [overwrite,List.length_append,List.length_take,List.length_drop]
  omega

theorem slice_overwrite (bound : first ≤ cells.length) :
    slice (overwrite cells first data) first (first + data.length) = data := by
  have front : (cells.take first).length = first := by rw [List.length_take]; omega
  rw [slice,overwrite,List.append_assoc,List.drop_append_of_le_length (Nat.le_of_eq front.symm),
    List.drop_eq_nil_of_le (Nat.le_of_eq front),List.nil_append,Nat.add_sub_cancel_left,List.take_left]

theorem slice_eq_drop_take : slice cells first last = (cells.take last).drop first := by
  rw [slice,List.drop_take]

theorem slice_overwrite_before (low : last ≤ start) (bound : start ≤ cells.length) :
    slice (overwrite cells start data) first last = slice cells first last := by
  have front : (cells.take start).length = start := by rw [List.length_take]; omega
  rw [slice_eq_drop_take,slice_eq_drop_take,overwrite,List.append_assoc,
    List.take_append_of_le_length (by omega),List.take_take,Nat.min_eq_left low]

theorem slice_overwrite_after (low : start + data.length ≤ first) (bound : start + data.length ≤ cells.length) :
    slice (overwrite cells start data) first last = slice cells first last := by
  have front : (cells.take start ++ data).length = start + data.length := by
    rw [List.length_append,List.length_take]; omega
  rw [slice,slice,overwrite,List.drop_append,List.drop_eq_nil_of_le (by omega),List.nil_append,List.drop_drop,front]
  congr 2
  omega

theorem slice_resize {blank : α} (bound : last ≤ cells.length) (grown : last ≤ size) :
    slice (resize cells size blank) first last = slice cells first last := by
  rw [slice_eq_drop_take,slice_eq_drop_take,resize,List.take_append_of_le_length (by rw [List.length_take]; omega),
    List.take_take,Nat.min_eq_left grown]

theorem resize_length {blank : α} : (resize cells size blank).length = size := by
  rw [resize,List.length_append,List.length_take,List.length_replicate]
  omega

end NewMuduo
