import Mathlib.Logic.Function.Basic

namespace NewMuduo

-- Agents, each holding one thing at most, and the set of things held: every
-- thing in it has exactly one holder. Nothing here depends on what they are.
structure Owners {Agent : Type u} {Place : Type v} {Thing : Type w} (owns : Place → Option Thing)
    (place : Agent → Place) (held : Thing → Prop) : Prop where
  held_iff : ∀ thing, held thing ↔ ∃ agent, owns (place agent) = some thing
  alone : ∀ agent other thing, owns (place agent) = some thing → owns (place other) = some thing → agent = other

namespace Owners
variable {Agent : Type u} {Place : Type v} {Thing : Type w} {owns : Place → Option Thing}
  {place : Agent → Place} {held after : Thing → Prop} {agent : Agent} {next : Place} {thing : Thing}

theorem holds (old : Owners owns place held) (here : owns (place agent) = some thing) : held thing :=
  (old.held_iff thing).mpr ⟨agent,here⟩

theorem none (unheld : ∀ thing, ¬held thing) (empty : ∀ agent, owns (place agent) = Option.none) :
    Owners owns place held := by
  refine ⟨fun thing => iff_of_false (unheld thing) ?_,?_⟩
  · intro given
    obtain ⟨agent,here⟩ := given
    rw [empty] at here
    cases here
  · intro agent other thing here
    rw [empty] at here
    cases here

variable [DecidableEq Agent]

theorem own_update_iff (other : Agent) :
    owns (Function.update place agent next other) = some thing ↔
      (other = agent ∧ owns next = some thing) ∨ (other ≠ agent ∧ owns (place other) = some thing) := by
  by_cases same : other = agent
  · simp [same]
  · simp [same]

-- An agent moves on with what it has.
theorem keep (old : Owners owns place held) (kept : owns next = owns (place agent)) :
    Owners owns (Function.update place agent next) held := by
  have equal : ∀ other, owns (Function.update place agent next other) = owns (place other) := by
    intro other
    by_cases same : other = agent
    · rw [same,Function.update_self,kept]
    · rw [Function.update_of_ne same]
  refine ⟨fun thing => ?_,fun first second thing => ?_⟩
  · simp only [equal]
    exact old.held_iff thing
  · rw [equal,equal]
    exact old.alone first second thing

-- An agent takes a thing that nobody holds.
theorem acquire (old : Owners owns place held) (free : ¬held thing) (empty : owns (place agent) = Option.none)
    (taken : owns next = some thing) (equal : ∀ other, after other ↔ held other ∨ other = thing) :
    Owners owns (Function.update place agent next) after := by
  refine ⟨fun other => ?_,fun first second other => ?_⟩
  · rw [equal,old.held_iff]
    constructor
    · rintro (⟨holder,here⟩ | rfl)
      · have apart : holder ≠ agent := by
          rintro rfl
          rw [empty] at here
          cases here
        exact ⟨holder,by rwa [Function.update_of_ne apart]⟩
      · exact ⟨agent,by rwa [Function.update_self]⟩
    · intro given
      obtain ⟨holder,here⟩ := given
      rcases (own_update_iff holder).mp here with ⟨_,now⟩ | ⟨_,before⟩
      · rw [taken] at now
        exact .inr (Option.some.inj now).symm
      · exact .inl ⟨holder,before⟩
  · intro here there
    rcases (own_update_iff first).mp here with ⟨one,now⟩ | ⟨_,before⟩
    · rcases (own_update_iff second).mp there with ⟨two,_⟩ | ⟨_,earlier⟩
      · rw [one,two]
      · rw [taken] at now
        cases Option.some.inj now
        exact absurd (old.holds earlier) free
    · rcases (own_update_iff second).mp there with ⟨_,now⟩ | ⟨_,earlier⟩
      · rw [taken] at now
        cases Option.some.inj now
        exact absurd (old.holds before) free
      · exact old.alone first second other before earlier

-- An agent gives up what it has.
theorem release (old : Owners owns place held) (here : owns (place agent) = some thing)
    (empty : owns next = Option.none) (equal : ∀ other, after other ↔ held other ∧ other ≠ thing) :
    Owners owns (Function.update place agent next) after := by
  have left : ∀ {holder other}, owns (Function.update place agent next holder) = some other →
      holder ≠ agent ∧ owns (place holder) = some other := by
    intro holder other found
    rcases (own_update_iff holder).mp found with ⟨_,now⟩ | later
    · rw [empty] at now
      cases now
    · exact later
  refine ⟨fun other => ?_,fun first second other one two => ?_⟩
  · rw [equal,old.held_iff]
    constructor
    · intro given
      obtain ⟨⟨holder,found⟩,apart⟩ := given
      have moved : holder ≠ agent := by
        rintro rfl
        rw [here] at found
        exact apart (Option.some.inj found).symm
      exact ⟨holder,by rwa [Function.update_of_ne moved]⟩
    · intro given
      obtain ⟨holder,found⟩ := given
      obtain ⟨moved,before⟩ := left found
      refine ⟨⟨holder,before⟩,?_⟩
      rintro rfl
      exact moved (old.alone _ _ _ before here)
  · exact old.alone first second other (left one).2 (left two).2

end Owners
end NewMuduo
