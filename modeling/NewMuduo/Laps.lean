import NewMuduo.Ring

namespace NewMuduo
variable {T : Type u} {Mark : Type v} {mark : Nat → Mark} {size front : Nat} {sequence : Nat → Mark} {data : Nat → T}
  {held rest : List T}

-- A ring whose cells say in one mark which position they wait for: a free cell
-- is marked with the position that will fill it, a filled one with the next
-- number. The items held stand at the positions from front on.
structure Laps (mark : Nat → Mark) (size : Nat) (sequence : Nat → Mark) (data : Nat → T) (front : Nat) (held : List T) : Prop where
  nonempty : 0 < size
  room : held.length ≤ size
  filled : ∀ i item, held[i]? = some item →
    sequence ((front + i) % size) = mark (front + i + 1) ∧ data ((front + i) % size) = item
  free : ∀ p, front + held.length ≤ p → p < front + size → sequence (p % size) = mark p

namespace Laps

theorem start (nonempty : 0 < size) (same : ∀ p < size, sequence p = mark p) : Laps mark size sequence data 0 [] := by
  refine ⟨nonempty,Nat.zero_le _,fun i item found => (by cases found),fun p _ below => ?_⟩
  rw [Nat.zero_add] at below
  rw [Nat.mod_eq_of_lt below]
  exact same p below

theorem next_free (laps : Laps mark size sequence data front held) (room : held.length < size) :
    sequence ((front + held.length) % size) = mark (front + held.length) :=
  laps.free _ (Nat.le_refl _) (by omega)

-- Of a full ring the next cell is still the one of its first item.
theorem next_full (laps : Laps mark size sequence data front held) (full : held.length = size) :
    sequence ((front + held.length) % size) = mark (front + 1) := by
  cases held with
  | nil => exact absurd full (Nat.ne_of_lt laps.nonempty)
  | cons item rest =>
    have first := (laps.filled 0 item rfl).1
    rw [full,Nat.add_mod_right]
    exact first

theorem first (laps : Laps mark size sequence data front (item :: rest)) :
    sequence (front % size) = mark (front + 1) ∧ data (front % size) = item := laps.filled 0 item rfl

theorem none (laps : Laps mark size sequence data front []) : sequence (front % size) = mark front :=
  laps.free front (Nat.le_refl _) (by have := laps.nonempty; omega)

theorem push (laps : Laps mark size sequence data front held) (room : held.length < size) (item : T) :
    Laps mark size (Function.update sequence ((front + held.length) % size) (mark (front + held.length + 1)))
      (Function.update data ((front + held.length) % size) item) front (held ++ [item]) := by
  refine ⟨laps.nonempty,by rw [List.length_append,List.length_singleton]; exact room,?_,?_⟩
  · intro i other found
    rcases Nat.lt_or_ge i held.length with earlier | later
    · have differs : (front + i) % size ≠ (front + held.length) % size := mod_apart (by omega) (by omega)
      rw [List.getElem?_append_left earlier] at found
      rw [Function.update_of_ne differs,Function.update_of_ne differs]
      exact laps.filled i other found
    · rw [List.getElem?_append_right later] at found
      have last : i = held.length := by
        have inside := (List.getElem?_eq_some_iff.mp found).1
        rw [List.length_singleton] at inside
        omega
      subst last
      rw [Nat.sub_self] at found
      cases found
      rw [Function.update_self,Function.update_self]
      exact ⟨rfl,rfl⟩
  · intro p above below
    rw [List.length_append,List.length_singleton] at above
    rw [Function.update_of_ne (mod_apart (p := front + held.length) (by omega) (by omega)).symm]
    exact laps.free p (by omega) below

-- The cell of the first item is free for the next lap, whatever is left in it.
theorem pop {left : Nat → T} (laps : Laps mark size sequence data front (item :: rest))
    (same : ∀ i, i ≠ front % size → left i = data i) :
    Laps mark size (Function.update sequence (front % size) (mark (front + size))) left (front + 1) rest := by
  have room := laps.room
  rw [List.length_cons] at room
  refine ⟨laps.nonempty,by omega,?_,?_⟩
  · intro i other found
    have inside := (List.getElem?_eq_some_iff.mp found).1
    have differs : (front + 1 + i) % size ≠ front % size := (mod_apart (p := front) (by omega) (by omega)).symm
    rw [Function.update_of_ne differs,same _ differs,Nat.add_assoc front 1 i,Nat.add_comm 1 i]
    exact laps.filled (i + 1) other found
  · intro p above below
    rcases Nat.lt_or_ge p (front + size) with inside | last
    · rw [Function.update_of_ne (mod_apart (p := front) (by omega) (by omega)).symm]
      exact laps.free p (by rw [List.length_cons]; omega) inside
    · have same : p = front + size := by omega
      rw [same,Nat.add_mod_right,Function.update_self]

end Laps
end NewMuduo
