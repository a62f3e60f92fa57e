import Mathlib.Data.List.Infix

namespace NewMuduo
variable {α : Type u} [DecidableEq α] {sep s more : List α}

-- A sequence cut at its separators. search gives the first position at which
-- the separator stands, or the length of the sequence when there is none.
def search (sep : List α) : List α → Nat
  | [] => 0
  | x :: rest => if sep.isPrefixOf (x :: rest) then 0 else search sep rest + 1

-- The pieces that end in a separator, and what is left behind the last one.
def cutFor (sep : List α) : Nat → List α → List (List α) × List α
  | 0,s => ([],s)
  | fuel + 1,s =>
    let n := search sep s
    if n = s.length then ([],s)
    else
      let rest := cutFor sep fuel (s.drop (n + sep.length))
      (s.take n :: rest.1,rest.2)

def cut (sep s : List α) : List (List α) × List α := cutFor sep s.length s

theorem search_le (sep s : List α) : search sep s ≤ s.length := by
  induction s with
  | nil => exact Nat.le_refl _
  | cons x rest ih =>
    rw [search]
    split
    · exact Nat.zero_le _
    · exact Nat.succ_le_succ ih

theorem search_found (inside : search sep s < s.length) : sep <+: s.drop (search sep s) := by
  induction s with
  | nil => cases inside
  | cons x rest ih =>
    rw [search] at inside ⊢
    split
    · rename_i here
      exact List.isPrefixOf_iff_prefix.mp here
    · rename_i later
      rw [if_neg later] at inside
      exact ih (Nat.lt_of_succ_lt_succ inside)

theorem search_first (before : i < search sep s) : ¬sep <+: s.drop i := by
  induction s generalizing i with
  | nil => cases before
  | cons x rest ih =>
    rw [search] at before
    split at before
    · cases before
    · rename_i later
      cases i with
      | zero => exact fun here => later (List.isPrefixOf_iff_prefix.mpr here)
      | succ i => exact ih (Nat.lt_of_succ_lt_succ before)

theorem search_unique (here : sep <+: s.drop n) (inside : n < s.length) (first : ∀ i < n, ¬sep <+: s.drop i) :
    search sep s = n := by
  rcases Nat.lt_trichotomy (search sep s) n with low | same | high
  · exact absurd (search_found (Nat.lt_trans low inside)) (first _ low)
  · exact same
  · exact absurd here (search_first high)

-- A separator that was found ends inside the sequence.
theorem search_room (inside : search sep s < s.length) : search sep s + sep.length ≤ s.length := by
  have room := (search_found inside).length_le
  rw [List.length_drop] at room
  omega

-- More behind the sequence does not change the first separator in it.
theorem search_append (inside : search sep s < s.length) : search sep (s ++ more) = search sep s := by
  have room := search_room inside
  refine search_unique ?_ (by rw [List.length_append]; omega) ?_
  · rw [List.drop_append_of_le_length (Nat.le_of_lt inside)]
    exact (search_found inside).trans (List.prefix_append _ _)
  · intro i before here
    rw [List.drop_append_of_le_length (by omega)] at here
    refine search_first before (List.prefix_of_prefix_length_le here (List.prefix_append _ _) ?_)
    rw [List.length_drop]
    omega

theorem cutFor_enough (nonempty : sep ≠ []) {fuel other : Nat} (enough : s.length ≤ fuel) (still : s.length ≤ other) :
    cutFor sep fuel s = cutFor sep other s := by
  induction fuel generalizing s other with
  | zero =>
    cases List.eq_nil_of_length_eq_zero (Nat.le_zero.mp enough)
    cases other with
    | zero => rfl
    | succ other => rfl
  | succ fuel ih =>
    cases other with
    | zero =>
      cases List.eq_nil_of_length_eq_zero (Nat.le_zero.mp still)
      rfl
    | succ other =>
      have positive := List.length_pos_iff.mpr nonempty
      have within := search_le sep s
      rw [cutFor,cutFor]
      dsimp only
      split
      · rfl
      · have rest : (s.drop (search sep s + sep.length)).length ≤ other := by rw [List.length_drop]; omega
        rw [ih (by rw [List.length_drop]; omega) rest]

theorem cut_none (absent : search sep s = s.length) : cut sep s = ([],s) := by
  rw [cut]
  cases s with
  | nil => rfl
  | cons x rest => rw [List.length_cons,cutFor,absent,if_pos rfl]

theorem cut_some (nonempty : sep ≠ []) (inside : search sep s < s.length) : cut sep s =
    (s.take (search sep s) :: (cut sep (s.drop (search sep s + sep.length))).1,
      (cut sep (s.drop (search sep s + sep.length))).2) := by
  have positive := List.length_pos_iff.mpr nonempty
  obtain ⟨fuel,length⟩ := Nat.exists_eq_succ_of_ne_zero (Nat.ne_of_gt (Nat.lt_of_le_of_lt (Nat.zero_le _) inside))
  have shorter : (s.drop (search sep s + sep.length)).length ≤ fuel := by rw [List.length_drop]; omega
  rw [cut,length,cutFor]
  dsimp only
  rw [if_neg (by omega),cut,cutFor_enough nonempty shorter (Nat.le_refl _)]

-- What is left behind the last separator takes part in the cuts of what follows.
theorem cut_append (nonempty : sep ≠ []) (s more : List α) : cut sep (s ++ more) =
    ((cut sep s).1 ++ (cut sep ((cut sep s).2 ++ more)).1,(cut sep ((cut sep s).2 ++ more)).2) := by
  induction length : s.length using Nat.strong_induction_on generalizing s with
  | h n ih =>
    rcases Nat.lt_or_eq_of_le (search_le sep s) with inside | absent
    · have positive := List.length_pos_iff.mpr nonempty
      have room := search_room inside
      have longer : search sep (s ++ more) < (s ++ more).length := by
        rw [search_append inside,List.length_append]
        omega
      have rest := ih _ (by rw [List.length_drop]; omega) (s.drop (search sep s + sep.length)) rfl
      rw [cut_some nonempty longer,cut_some nonempty inside,search_append inside,List.take_append_of_le_length (by omega),
        List.drop_append_of_le_length room,rest]
      rfl
    · rw [cut_none absent]
      rfl

end NewMuduo
