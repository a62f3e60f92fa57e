import Mathlib.Logic.Function.Basic
import Mathlib.Data.Nat.ModEq

namespace NewMuduo

-- A ring of slots that a writer fills in order: the n-th item goes to slot
-- n % entries. written is everything put so far; a slot holds an item until the
-- writer comes round to it again.
structure Ring (Item : Type u) where
  entries : Nat
  slots : Nat → Item
  written : List Item
  nonempty : 0 < entries
  holds : ∀ n (within : n < written.length), written.length ≤ n + entries → slots (n % entries) = written[n]

-- Two positions less than one round apart have different slots.
theorem mod_apart {size p q : Nat} (below : p < q) (near : q < p + size) : p % size ≠ q % size := by
  intro same
  have divides : size ∣ q - p := (Nat.modEq_iff_dvd' (Nat.le_of_lt below)).mp same
  have bound := Nat.le_of_dvd (Nat.sub_pos_of_lt below) divides
  omega

-- Two counters of one word apart by what was counted up and not yet down.
theorem mod_difference {size up down : Nat} (below : down < size) (counted : up ≡ down + n [MOD size]) :
    (up + (size - down)) % size = n % size := by
  have whole : down + n + (size - down) = n + size := by omega
  have same := counted.add_right (size - down)
  rw [whole] at same
  exact same.trans Nat.add_modEq_right

namespace Ring
variable {Item : Type u} {r : Ring Item}

def new (entries : Nat) (slots : Nat → Item) (nonempty : 0 < entries) : Ring Item :=
  ⟨entries,slots,[],nonempty,fun _ within => (by cases within)⟩

def tail (r : Ring Item) : Nat := r.written.length

def slot (r : Ring Item) (n : Nat) : Nat := n % r.entries

def read (r : Ring Item) (slot : Nat) : Item := r.slots slot

theorem slot_apart (before : n < m) (near : m < n + r.entries) : r.slot n ≠ r.slot m := mod_apart before near

def put (r : Ring Item) (item : Item) : Ring Item where
  entries := r.entries
  slots := Function.update r.slots (r.slot r.tail) item
  written := r.written ++ [item]
  nonempty := r.nonempty
  holds := by
    intro n within near
    rw [List.length_append,List.length_singleton] at within near
    by_cases last : n = r.written.length
    · subst last
      rw [List.getElem_concat_length rfl]
      exact Function.update_self ..
    · have earlier : n < r.written.length := by omega
      have other : n % r.entries ≠ r.slot r.tail := slot_apart earlier (by unfold tail; omega)
      rw [Function.update_of_ne other,List.getElem_append_left earlier]
      exact r.holds n earlier (by omega)

@[simp] theorem put_tail (r : Ring Item) (item : Item) : (r.put item).tail = r.tail + 1 := by
  simp [put,tail]

theorem read_current (within : n < r.tail) (near : r.tail ≤ n + r.entries) : r.read (r.slot n) = r.written[n] :=
  r.holds n within near

-- A slot whose item the writer has come round to holds a later one.
theorem read_later (within : n < r.tail) (far : n + r.entries < r.tail) :
    ∃ m, ∃ later : m < r.tail, n < m ∧ r.read (r.slot n) = r.written[m] := by
  have positive := r.nonempty
  have split := Nat.div_add_mod (r.tail - 1 - n) r.entries
  have rest := Nat.mod_lt (r.tail - 1 - n) positive
  have rounds : 0 < (r.tail - 1 - n) / r.entries := Nat.div_pos (by omega) positive
  have long : 0 < r.entries * ((r.tail - 1 - n) / r.entries) := Nat.mul_pos positive rounds
  refine ⟨n + r.entries * ((r.tail - 1 - n) / r.entries),by omega,by omega,?_⟩
  have same : r.slot n = r.slot (n + r.entries * ((r.tail - 1 - n) / r.entries)) :=
    (Nat.add_mul_mod_self_left n r.entries _).symm
  rw [same]
  exact read_current _ (by omega)

end Ring
end NewMuduo
