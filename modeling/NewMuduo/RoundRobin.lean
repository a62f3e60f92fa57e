import Mathlib.Algebra.Group.Nat.Defs

namespace NewMuduo

-- An entry of a queue with at most n entries before it.
def InLine {α : Type u} (n : Nat) (a : α) (queue : List α) : Prop :=
  ∃ before after, queue = before ++ a :: after ∧ before.length ≤ n

namespace InLine
variable {α : Type u} {a : α} {queue : List α} {n window : Nat}

theorem of_getElem? (here : queue[n]? = some a) : InLine n a queue := by
  obtain ⟨inside,same⟩ := List.getElem?_eq_some_iff.mp here
  refine ⟨queue.take n,queue.drop (n + 1),?_,List.length_take_le n queue⟩
  rw [← same,← List.drop_eq_getElem_cons inside,List.take_append_drop]

theorem append (old : InLine n a queue) (more : List α) : InLine n a (queue ++ more) := by
  obtain ⟨before,after,rfl,few⟩ := old
  exact ⟨before,after ++ more,by rw [List.append_assoc,List.cons_append],few⟩

-- Others leave.
theorem filter (old : InLine n a queue) {keep : α → Bool} (kept : keep a = true) : InLine n a (queue.filter keep) := by
  obtain ⟨before,after,rfl,few⟩ := old
  refine ⟨before.filter keep,after.filter keep,?_,Nat.le_trans (List.length_filter_le keep before) few⟩
  rw [List.filter_append,List.filter_cons_of_pos kept]

-- The first entries are served. One that is not among them has that many fewer
-- before it.
theorem served (old : InLine n a queue) (window : Nat) :
    a ∈ queue.take window ∨ window ≤ n ∧ window < queue.length ∧ InLine (n - window) a (queue.drop window) := by
  obtain ⟨before,after,rfl,few⟩ := old
  by_cases inside : before.length < window
  · obtain ⟨more,rfl⟩ := Nat.exists_eq_add_of_lt inside
    refine .inl ?_
    rw [Nat.add_assoc,List.take_length_add_append]
    exact List.mem_append_right before List.mem_cons_self
  · have out : window ≤ before.length := Nat.le_of_not_lt inside
    refine .inr ⟨Nat.le_trans out few,?_,before.drop window,after,List.drop_append_of_le_length out,?_⟩
    · simp
      omega
    · rw [List.length_drop]
      exact Nat.sub_le_sub_right few window

end InLine

-- A window that is doubled whenever it was full comes to the entry at place n
-- within k rounds.
theorem doubled_window (behind : window ≤ n) (soon : n < window * (2 ^ (k + 1) - 1)) : n - window < window * 2 * (2 ^ k - 1) := by
  have whole : window * (2 ^ (k + 1) - 1) = window + window * 2 * (2 ^ k - 1) := by
    have positive : 0 < 2 ^ k := Nat.two_pow_pos k
    have parts : 2 ^ (k + 1) - 1 = 1 + 2 * (2 ^ k - 1) := by omega
    rw [parts,Nat.mul_add,Nat.mul_one,Nat.mul_assoc]
  omega

end NewMuduo
