import Mathlib.Data.List.Nodup
import Mathlib.Data.List.Perm.Basic
import Mathlib.Logic.ExistsUnique

namespace NewMuduo

-- Things kept in places: each known thing in one place and there once, nothing
-- else in any. Nothing here depends on what they are.
structure Places {Place : Type u} {Thing : Type v} (contents : Place → List Thing) (known : Thing → Prop) : Prop where
  known_iff : ∀ thing, known thing ↔ ∃ place, thing ∈ contents place
  once : ∀ place, (contents place).Nodup
  alone : ∀ thing place other, thing ∈ contents place → thing ∈ contents other → place = other

namespace Places
variable {Place : Type u} {Thing : Type v} {contents after : Place → List Thing} {known grown : Thing → Prop}
  {source target : Place} {thing : Thing}

theorem exactly_one (old : Places contents known) (given : known thing) : ∃! place, thing ∈ contents place := by
  obtain ⟨place,here⟩ := (old.known_iff thing).mp given
  exact ⟨place,here,fun other there => old.alone thing other place there here⟩

theorem none (unknown : ∀ thing, ¬known thing) (empty : ∀ place, contents place = []) : Places contents known := by
  refine ⟨fun thing => iff_of_false (unknown thing) ?_,?_,?_⟩
  · intro given
    obtain ⟨place,here⟩ := given
    rw [empty] at here
    cases here
  · intro place
    rw [empty]
    exact .nil
  · intro thing place other here
    rw [empty] at here
    cases here

theorem same (old : Places contents known) (equal : ∀ place, after place = contents place) : Places after known := by
  have whole : after = contents := funext equal
  rwa [whole]

-- A new thing arrives.
theorem enter (old : Places contents known) (fresh : ¬known thing) (target : Place) (arrived : (after target).Perm (thing :: contents target))
    (others : ∀ place, place ≠ target → after place = contents place)
    (equal : ∀ other, grown other ↔ known other ∨ other = thing) : Places after grown := by
  have absent : ∀ place, thing ∉ contents place := fun place here => fresh ((old.known_iff thing).mpr ⟨place,here⟩)
  have parts : ∀ place other, other ∈ after place ↔ other ∈ contents place ∨ other = thing ∧ place = target := by
    intro place other
    by_cases here : place = target
    · rw [here,arrived.mem_iff,List.mem_cons]
      simp [or_comm]
    · simp [others place here,here]
  refine ⟨fun other => ?_,fun place => ?_,fun other one two first second => ?_⟩
  · rw [equal,old.known_iff]
    simp only [parts]
    constructor
    · intro given
      rcases given with ⟨place,here⟩ | rfl
      · exact ⟨place,.inl here⟩
      · exact ⟨target,.inr ⟨rfl,rfl⟩⟩
    · intro given
      obtain ⟨place,here | ⟨rfl,_⟩⟩ := given
      · exact .inl ⟨place,here⟩
      · exact .inr rfl
  · by_cases here : place = target
    · rw [here,arrived.nodup_iff]
      exact List.nodup_cons.mpr ⟨absent target,old.once target⟩
    · rw [others place here]
      exact old.once place
  · rcases (parts one other).mp first with first | ⟨rfl,rfl⟩ <;> rcases (parts two other).mp second with second | ⟨same,rfl⟩
    · exact old.alone other one two first second
    · exact absurd (same ▸ first) (absent one)
    · exact absurd second (absent two)
    · rfl

-- A known thing goes away.
theorem leave (old : Places contents known) (source : Place) (thing : Thing) (left : (contents source).Perm (thing :: after source))
    (others : ∀ place, place ≠ source → after place = contents place)
    (equal : ∀ other, grown other ↔ known other ∧ other ≠ thing) : Places after grown := by
  have there : thing ∈ contents source := left.mem_iff.mpr List.mem_cons_self
  have gone : thing ∉ after source := (List.nodup_cons.mp (left.nodup_iff.mp (old.once source))).1
  have parts : ∀ place other, other ∈ after place ↔ other ∈ contents place ∧ other ≠ thing := by
    intro place other
    by_cases here : place = source
    · rw [here,left.mem_iff,List.mem_cons]
      constructor
      · intro kept
        exact ⟨.inr kept,fun same => gone (same ▸ kept)⟩
      · intro given
        exact given.1.resolve_left given.2
    · rw [others place here]
      constructor
      · intro kept
        refine ⟨kept,fun same => here ?_⟩
        exact old.alone other place source kept (same ▸ there)
      · exact fun given => given.1
  refine ⟨fun other => ?_,fun place => ?_,fun other one two first second => ?_⟩
  · rw [equal,old.known_iff]
    simp only [parts]
    constructor
    · intro given
      obtain ⟨⟨place,here⟩,differ⟩ := given
      exact ⟨place,here,differ⟩
    · intro given
      obtain ⟨place,here,differ⟩ := given
      exact ⟨⟨place,here⟩,differ⟩
  · by_cases here : place = source
    · rw [here]
      exact (List.nodup_cons.mp (left.nodup_iff.mp (old.once source))).2
    · rw [others place here]
      exact old.once place
  · exact old.alone other one two ((parts one other).mp first).1 ((parts two other).mp second).1

-- A known thing moves.
theorem move (old : Places contents known) (apart : source ≠ target) (left : (contents source).Perm (thing :: after source))
    (arrived : (after target).Perm (thing :: contents target))
    (others : ∀ place, place ≠ source → place ≠ target → after place = contents place) : Places after known := by
  have there : thing ∈ contents source := left.mem_iff.mpr List.mem_cons_self
  have gone : thing ∉ after source := (List.nodup_cons.mp (left.nodup_iff.mp (old.once source))).1
  have parts : ∀ place other, other ∈ after place ↔ other ∈ contents place ∧ other ≠ thing ∨ other = thing ∧ place = target := by
    intro place other
    by_cases first : place = source
    · rw [first,left.mem_iff,List.mem_cons]
      constructor
      · intro here
        exact .inl ⟨.inr here,fun same => gone (same ▸ here)⟩
      · intro given
        rcases given with ⟨same | here,differ⟩ | ⟨_,same⟩
        · exact absurd same differ
        · exact here
        · exact absurd same apart
    · by_cases last : place = target
      · rw [last,arrived.mem_iff,List.mem_cons]
        constructor
        · intro given
          rcases given with same | here
          · exact .inr ⟨same,rfl⟩
          · by_cases same : other = thing
            · exact .inr ⟨same,rfl⟩
            · exact .inl ⟨here,same⟩
        · intro given
          rcases given with ⟨here,_⟩ | ⟨same,_⟩
          · exact .inr here
          · exact .inl same
      · rw [others place first last]
        constructor
        · intro here
          refine .inl ⟨here,fun same => first ?_⟩
          exact old.alone other place source here (same ▸ there)
        · intro given
          rcases given with ⟨here,_⟩ | ⟨_,same⟩
          · exact here
          · exact absurd same last
  refine ⟨fun other => ?_,fun place => ?_,fun other one two first second => ?_⟩
  · rw [old.known_iff]
    simp only [parts]
    constructor
    · intro given
      obtain ⟨place,here⟩ := given
      by_cases same : other = thing
      · exact ⟨target,.inr ⟨same,rfl⟩⟩
      · exact ⟨place,.inl ⟨here,same⟩⟩
    · intro given
      obtain ⟨place,⟨here,_⟩ | ⟨rfl,_⟩⟩ := given
      · exact ⟨place,here⟩
      · exact ⟨source,there⟩
  · by_cases first : place = source
    · rw [first]
      exact (List.nodup_cons.mp (left.nodup_iff.mp (old.once source))).2
    · by_cases last : place = target
      · rw [last,arrived.nodup_iff]
        refine List.nodup_cons.mpr ⟨fun here => ?_,old.once target⟩
        exact apart (old.alone thing source target there here)
      · rw [others place first last]
        exact old.once place
  · rcases (parts one other).mp first with ⟨first,_⟩ | ⟨rfl,rfl⟩ <;> rcases (parts two other).mp second with ⟨second,differ⟩ | ⟨same,rfl⟩
    · exact old.alone other one two first second
    · contradiction
    · exact absurd rfl differ
    · rfl

end Places
end NewMuduo
