import Mathlib.Data.List.Count
import Mathlib.Data.List.Perm.Basic

namespace NewMuduo

-- Tasks waiting in queues at places, each about one thing. A thing has one
-- errand due at most: it waits once, at its place, unless it is the one in hand.
structure Errands {Thing : Type u} {Place : Type v} {Task : Type w} [DecidableEq Place] [DecidableEq Task]
    [DecidableEq Thing] (about : Task → Thing) (queue : Place → List Task) (due : Thing → Option (Place × Task))
    (hand : Option Task) : Prop where
  waits : ∀ place task, (queue place).count task = if due (about task) = some (place,task) ∧ hand ≠ some task then 1 else 0
  held : ∀ task, hand = some task → ∃ place, due (about task) = some (place,task)

-- One queue has one more of one task.
def OneMore {Place : Type v} {Task : Type w} [DecidableEq Place] [DecidableEq Task] (small large : Place → List Task)
    (place : Place) (task : Task) : Prop :=
  ∀ p t, (large p).count t = (small p).count t + if p = place ∧ t = task then 1 else 0

theorem OneMore.of_perm {Place : Type v} {Task : Type w} [DecidableEq Place] [DecidableEq Task]
    {small large : Place → List Task} {place : Place} {task : Task} (others : ∀ p, p ≠ place → large p = small p)
    (here : (large place).Perm (task :: small place)) : OneMore small large place task := by
  intro p t
  by_cases there : p = place
  · subst there
    rw [here.count_eq t,List.count_cons]
    by_cases same : t = task
    · simp [same]
    · simp [same,Ne.symm same]
  · rw [others p there]
    simp [there]

namespace Errands
variable {Thing : Type u} {Place : Type v} {Task : Type w} [DecidableEq Place] [DecidableEq Task] [DecidableEq Thing]
  {about : Task → Thing} {queue after : Place → List Task} {due next : Thing → Option (Place × Task)}
  {hand new : Option Task} {place : Place} {task : Task} {thing : Thing}

theorem nothing (empty : ∀ place, queue place = []) (idle : ∀ thing, due thing = none) :
    Errands about queue due none := by
  refine ⟨?_,fun _ absent => (by cases absent)⟩
  intro place task
  rw [empty,idle]
  simp

theorem due_of_mem (old : Errands about queue due hand) (member : task ∈ queue place) :
    due (about task) = some (place,task) := by
  have waits := old.waits place task
  have some := List.count_pos_iff.mpr member
  split at waits
  · rename_i here
    exact here.1
  · omega

theorem perm (old : Errands about queue due hand) (same : ∀ place, (after place).Perm (queue place)) :
    Errands about after due hand :=
  ⟨fun place task => ((same place).count_eq task).trans (old.waits place task),old.held⟩

-- A task leaves its queue for the hand.
theorem take (old : Errands about queue due none) (more : OneMore after queue place task) :
    Errands about after due (some task) := by
  have member : task ∈ queue place := by
    have counted := more place task
    rw [if_pos ⟨rfl,rfl⟩] at counted
    exact List.count_pos_iff.mp (by omega)
  have here := old.due_of_mem member
  refine ⟨?_,?_⟩
  · intro p t
    have waits := old.waits p t
    have counted := more p t
    by_cases same : t = task
    · subst same
      rw [here] at waits ⊢
      by_cases there : p = place
      · subst there
        simp at waits counted ⊢
        omega
      · have apart : place ≠ p := Ne.symm there
        simp [there,apart] at waits counted ⊢
        omega
    · have differ : task ≠ t := Ne.symm same
      simp only [same,and_false,if_false,Nat.add_zero] at counted
      rw [← counted,waits]
      simp [differ]
  · intro t held
    cases held
    exact ⟨place,here⟩

-- The task in hand is put where it is due.
theorem post (old : Errands about queue due (some task)) (here : due (about task) = some (place,task))
    (more : OneMore queue after place task) : Errands about after due none := by
  refine ⟨?_,fun _ absent => (by cases absent)⟩
  intro p t
  have waits := old.waits p t
  rw [more p t,waits]
  by_cases same : t = task
  · subst same
    rw [here]
    by_cases there : p = place
    · simp [there]
    · simp [there,Ne.symm there]
  · simp [same,Ne.symm same]

theorem idle_absent (old : Errands about queue due hand) (idle : due thing = none) (mine : about task = thing) :
    task ∉ queue place := by
  intro member
  have here := old.due_of_mem member
  rw [mine,idle] at here
  cases here

theorem hand_absent {other : Task} (old : Errands about queue due (some task)) (mine : about other = about task) :
    other ∉ queue place := by
  intro member
  obtain ⟨_,here⟩ := old.held task rfl
  have there := old.due_of_mem member
  rw [mine,here] at there
  cases there
  have waits := old.waits place task
  rw [if_neg fun both => both.2 rfl] at waits
  exact List.count_eq_zero.mp waits member

-- The errand of one thing changes; the others stay.
theorem change (old : Errands about queue due hand) (thing : Thing) (place : Place) (mine : ∀ task, hand = some task → about task = thing)
    (empty : ∀ place task, about task = thing → task ∉ queue place)
    (others : ∀ other, other ≠ thing → next other = due other)
    (now : next thing = new.map fun task => (place,task)) (right : ∀ task, new = some task → about task = thing) :
    Errands about queue next new := by
  refine ⟨?_,?_⟩
  · intro p t
    by_cases same : about t = thing
    · rw [List.count_eq_zero.mpr (empty p t same),same,now]
      cases new with
      | none => simp
      | some task =>
        by_cases equal : task = t
        · simp [equal]
        · simp [equal]
    · have waits := old.waits p t
      have apart : ∀ task, hand = some task → task ≠ t := fun task held equal => same (equal ▸ mine task held)
      have apart_new : ∀ task, new = some task → task ≠ t := fun task held equal => same (equal ▸ right task held)
      rw [waits,others _ same]
      have one : hand ≠ some t := fun held => apart t held rfl
      have two : new ≠ some t := fun held => apart_new t held rfl
      simp [one,two]
  · intro task held
    refine ⟨place,?_⟩
    rw [right task held,now,held]
    rfl

end Errands
end NewMuduo
