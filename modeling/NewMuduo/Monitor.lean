import Mathlib.Logic.Function.Basic

namespace NewMuduo

-- A mutex, and places whose stage says whether the thread there holds it: only
-- the thread that has the mutex is at such a stage.
def Holding {Place : Type u} {Who : Type v} {Stage : Type w} (who : Place → Who) (holds : Stage → Bool)
    (stage : Place → Stage) (mutex : Option Who) : Prop :=
  ∀ place, holds (stage place) = true → mutex = some (who place)

namespace Holding
variable {Place : Type u} {Who : Type v} {Stage : Type w} {who : Place → Who} {holds : Stage → Bool}
  {stage other : Place → Stage} {mutex owner : Option Who} {place : Place} {thread : Who} {next : Stage}

-- When a thread lets go of the mutex nobody else has it.
theorem released (held : mutex = some thread) (another : Who) (apart : another ≠ thread) (has : mutex = some another) :
    (none : Option Who) = some another :=
  absurd (Option.some.inj (has.symm.trans held)) apart

theorem same (old : Holding who holds stage mutex) (equal : ∀ place, holds (other place) = holds (stage place)) :
    Holding who holds other mutex :=
  fun place held => old place ((equal place).symm.trans held)

theorem unique (old : Holding who holds stage mutex) (one : Function.Injective who) {first second : Place}
    (here : holds (stage first) = true) (there : holds (stage second) = true) : first = second :=
  one (Option.some.inj ((old first here).symm.trans (old second there)))

-- A thread that is at none of these places takes the mutex, lets go of it or
-- leaves it alone.
theorem elsewhere (old : Holding who holds stage mutex) (outside : ∀ place, holds (stage place) = true → who place ≠ thread)
    (others : ∀ another, another ≠ thread → mutex = some another → owner = some another) : Holding who holds stage owner :=
  fun place held => others _ (outside place held) (old place held)

-- A thread does so on its way to another stage.
theorem update [DecidableEq Place] (old : Holding who holds stage mutex) (one : Function.Injective who)
    (mine : holds next = true → owner = some (who place))
    (others : ∀ another, another ≠ who place → mutex = some another → owner = some another) :
    Holding who holds (Function.update stage place next) owner := by
  intro elsewhere held
  by_cases same : elsewhere = place
  · rw [same,Function.update_self] at held
    rw [same]
    exact mine held
  · rw [Function.update_of_ne same] at held
    exact others _ (fun equal => same (one equal)) (old elsewhere held)

end Holding
end NewMuduo
