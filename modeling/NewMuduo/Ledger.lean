import Mathlib.Logic.Function.Basic
import Mathlib.Data.List.Nodup

namespace NewMuduo

-- Objects in cells that are used again, each with a key of its own: the keys
-- given out are those of the objects there are and of the objects freed.
structure Ledger {Cell : Type u} {Object : Type v} {Key : Type w} (key : Object → Key)
    (cells : Cell → Option Object) (used freed : List Key) : Prop where
  known : ∀ cell object, cells cell = some object → key object ∈ used
  kept : ∀ cell object, cells cell = some object → key object ∉ freed
  alone : ∀ one two a b, cells one = some a → cells two = some b → key a = key b → one = two
  whole : ∀ k ∈ used, k ∉ freed → ∃ cell object, cells cell = some object ∧ key object = k
  gone : ∀ k ∈ freed, k ∈ used
  once : freed.Nodup

namespace Ledger
variable {Cell : Type u} {Object : Type v} {Key : Type w} {key : Object → Key} {cells : Cell → Option Object}
  {used freed : List Key} {cell : Cell} {object new : Object}

theorem none : Ledger key (fun _ : Cell => none) [] [] := by
  refine ⟨?_,?_,?_,fun _ absent => (by cases absent),fun _ absent => (by cases absent),.nil⟩ <;>
    · intros
      contradiction

-- A key given out belongs to an object or is freed, and not both.
theorem exactly_one (old : Ledger key cells used freed) {k : Key} (given : k ∈ used) :
    Xor (∃ cell object, cells cell = some object ∧ key object = k) (k ∈ freed) := by
  by_cases free : k ∈ freed
  · refine .inr ⟨free,?_⟩
    intro parts
    obtain ⟨cell,object,found,rfl⟩ := parts
    exact old.kept cell object found free
  · exact .inl ⟨old.whole k given free,free⟩

variable [DecidableEq Cell]

theorem update_some {one : Cell} {a : Object} (found : Function.update cells cell (some new) one = some a) :
    one = cell ∧ a = new ∨ one ≠ cell ∧ cells one = some a := by
  by_cases same : one = cell
  · rw [same,Function.update_self] at found
    exact .inl ⟨same,(Option.some.inj found).symm⟩
  · rw [Function.update_of_ne same] at found
    exact .inr ⟨same,found⟩

theorem update_none {one : Cell} {a : Object} (found : Function.update cells cell Option.none one = some a) :
    one ≠ cell ∧ cells one = some a := by
  by_cases same : one = cell
  · rw [same,Function.update_self] at found
    cases found
  · rw [Function.update_of_ne same] at found
    exact ⟨same,found⟩

theorem update_kept {one : Cell} (empty : Function.update cells cell (some new) one = Option.none) :
    one ≠ cell ∧ cells one = Option.none := by
  by_cases same : one = cell
  · rw [same,Function.update_self] at empty
    cases empty
  · rw [Function.update_of_ne same] at empty
    exact ⟨same,empty⟩

theorem allocate (old : Ledger key cells used freed) (empty : cells cell = Option.none) (fresh : key new ∉ used) :
    Ledger key (Function.update cells cell (some new)) (used ++ [key new]) freed := by
  refine ⟨?_,?_,?_,?_,fun k free => List.mem_append_left _ (old.gone k free),old.once⟩
  · intro one a found
    rcases update_some found with ⟨_,rfl⟩ | ⟨_,there⟩
    · exact List.mem_append_right _ List.mem_cons_self
    · exact List.mem_append_left _ (old.known one a there)
  · intro one a found
    rcases update_some found with ⟨_,rfl⟩ | ⟨_,there⟩
    · exact fun free => fresh (old.gone _ free)
    · exact old.kept one a there
  · intro one two a b first second same
    rcases update_some first with ⟨here,rfl⟩ | ⟨_,there⟩ <;> rcases update_some second with ⟨here_two,rfl⟩ | ⟨_,there_two⟩
    · rw [here,here_two]
    · exact absurd (same ▸ old.known two b there_two) fresh
    · exact absurd (same ▸ old.known one a there) fresh
    · exact old.alone one two a b there there_two same
  · intro k given unfreed
    rcases List.mem_append.mp given with given | last
    · obtain ⟨one,a,found,same⟩ := old.whole k given unfreed
      have apart : one ≠ cell := fun equal => by rw [equal,empty] at found; cases found
      exact ⟨one,a,(Function.update_of_ne apart _ _).trans found,same⟩
    · exact ⟨cell,new,Function.update_self _ _ _,(List.mem_singleton.mp last).symm⟩

-- An object changes in its cell and keeps its key.
theorem replace (old : Ledger key cells used freed) (found : cells cell = some object) (same : key new = key object) :
    Ledger key (Function.update cells cell (some new)) used freed := by
  have back : ∀ {one a}, Function.update cells cell (some new) one = some a → ∃ b, cells one = some b ∧ key a = key b := by
    intro one a there
    rcases update_some there with ⟨rfl,rfl⟩ | ⟨_,there⟩
    · exact ⟨object,found,same⟩
    · exact ⟨a,there,rfl⟩
  refine ⟨?_,?_,?_,?_,old.gone,old.once⟩
  · intro one a there
    obtain ⟨b,before,equal⟩ := back there
    exact equal ▸ old.known one b before
  · intro one a there
    obtain ⟨b,before,equal⟩ := back there
    exact equal ▸ old.kept one b before
  · intro one two a b first second equal
    obtain ⟨a',before,key_a⟩ := back first
    obtain ⟨b',before_two,key_b⟩ := back second
    exact old.alone one two a' b' before before_two (key_a.symm.trans (equal.trans key_b))
  · intro k given unfreed
    obtain ⟨one,a,there,equal⟩ := old.whole k given unfreed
    by_cases here : one = cell
    · rw [here] at there
      cases found.symm.trans there
      exact ⟨cell,new,Function.update_self _ _ _,same.trans equal⟩
    · exact ⟨one,a,(Function.update_of_ne here _ _).trans there,equal⟩

theorem free (old : Ledger key cells used freed) (found : cells cell = some object) :
    Ledger key (Function.update cells cell Option.none) used (freed ++ [key object]) := by
  refine ⟨?_,?_,?_,?_,?_,?_⟩
  · intro one a there
    exact old.known one a (update_none there).2
  · intro one a there listed
    obtain ⟨apart,there⟩ := update_none there
    rcases List.mem_append.mp listed with listed | last
    · exact old.kept one a there listed
    · exact apart (old.alone one cell a object there found (List.mem_singleton.mp last))
  · intro one two a b first second
    exact old.alone one two a b (update_none first).2 (update_none second).2
  · intro k given unfreed
    obtain ⟨unlisted,other⟩ := not_or.mp (mt List.mem_append.mpr unfreed)
    obtain ⟨one,a,there,equal⟩ := old.whole k given unlisted
    have apart : one ≠ cell := by
      rintro rfl
      cases found.symm.trans there
      exact other (List.mem_singleton.mpr equal.symm)
    exact ⟨one,a,(Function.update_of_ne apart _ _).trans there,equal⟩
  · intro k listed
    rcases List.mem_append.mp listed with listed | last
    · exact old.gone k listed
    · rw [List.mem_singleton.mp last]
      exact old.known cell object found
  · refine List.nodup_append.mpr ⟨old.once,List.nodup_singleton _,?_⟩
    rintro k listed _ last rfl
    rw [List.mem_singleton.mp last] at listed
    exact old.kept cell object found listed

end Ledger
end NewMuduo
