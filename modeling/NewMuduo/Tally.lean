import Mathlib.Data.Finset.Card
import Mathlib.Logic.Function.Basic

namespace NewMuduo

-- The number of agents at places that count. There may be any number of agents
-- as long as finitely many count.
def Tally {Agent : Type u} {Place : Type v} (counts : Place → Bool) (place : Agent → Place) (n : Nat) : Prop :=
  ∃ agents : Finset Agent, agents.card = n ∧ ∀ agent, agent ∈ agents ↔ counts (place agent) = true

namespace Tally
variable {Agent : Type u} {Place : Type v} {counts : Place → Bool} {place : Agent → Place} {n : Nat} {agent : Agent}

theorem none (nobody : ∀ agent, counts (place agent) = false) : Tally counts place 0 :=
  ⟨∅,rfl,fun agent => by simp [nobody]⟩

theorem eq_zero_iff (old : Tally counts place n) : n = 0 ↔ ∀ agent, counts (place agent) = false := by
  obtain ⟨agents,card,member⟩ := old
  rw [← card,Finset.card_eq_zero,Finset.eq_empty_iff_forall_notMem]
  simp [member]

theorem unique (old : Tally counts place n) (other : Tally counts place m) : n = m := by
  obtain ⟨agents,card,member⟩ := old
  obtain ⟨others,total,inside⟩ := other
  have same : agents = others := Finset.ext fun agent => (member agent).trans (inside agent).symm
  rw [← card,← total,same]

-- Only agents of a finite set count.
theorem within (agents : Finset Agent) (outside : ∀ agent, agent ∉ agents → counts (place agent) = false) :
    ∃ n, Tally counts place n ∧ n ≤ agents.card := by
  refine ⟨(agents.filter fun agent => counts (place agent) = true).card,⟨_,rfl,fun agent => ?_⟩,Finset.card_filter_le _ _⟩
  rw [Finset.mem_filter]
  refine ⟨fun both => both.2,fun here => ⟨?_,here⟩⟩
  by_contra apart
  rw [outside agent apart] at here
  cases here

-- The agents go to places that count the same.
theorem same (old : Tally counts place n) {other : Agent → Place}
    (equal : ∀ agent, counts (other agent) = counts (place agent)) : Tally counts other n := by
  obtain ⟨agents,card,member⟩ := old
  exact ⟨agents,card,fun agent => (member agent).trans (by rw [equal agent])⟩

-- An agent that counts is one of them.
theorem le (old : Tally counts place n) (agent : Agent) : (counts (place agent)).toNat ≤ n := by
  cases here : counts (place agent) with
  | false => exact Nat.zero_le n
  | true =>
    refine Nat.pos_of_ne_zero fun none => ?_
    rw [old.eq_zero_iff.mp none agent] at here
    cases here

-- Where two count, there is one beside any agent.
theorem another (old : Tally counts place n) (many : 1 < n) (agent : Agent) :
    ∃ other, other ≠ agent ∧ counts (place other) = true := by
  obtain ⟨agents,card,member⟩ := old
  rw [← card] at many
  obtain ⟨other,inside,apart⟩ := Finset.exists_mem_ne many agent
  exact ⟨other,apart,(member other).mp inside⟩

variable [DecidableEq Agent]

-- One agent goes somewhere else.
theorem update (old : Tally counts place n) (agent : Agent) (next : Place) :
    Tally counts (Function.update place agent next) (n + (counts next).toNat - (counts (place agent)).toNat) := by
  obtain ⟨agents,card,member⟩ := old
  have others : ∀ other, other ≠ agent → (other ∈ agents ↔ counts (Function.update place agent next other) = true) := by
    intro other apart
    rw [Function.update_of_ne apart]
    exact member other
  have was := member agent
  cases now : counts next with
  | true =>
    refine ⟨insert agent agents,?_,fun other => ?_⟩
    · cases before : counts (place agent) <;> rw [before] at was
      · rw [Finset.card_insert_of_notMem (by simpa using was),card]
        rfl
      · rw [Finset.insert_eq_of_mem (by simpa using was),card]
        exact (Nat.add_sub_cancel n 1).symm
    · by_cases same : other = agent
      · simp [same,now]
      · rw [Finset.mem_insert,or_iff_right same]
        exact others other same
  | false =>
    refine ⟨agents.erase agent,?_,fun other => ?_⟩
    · cases before : counts (place agent) <;> rw [before] at was
      · rw [Finset.erase_eq_of_notMem (by simpa using was),card]
        rfl
      · rw [Finset.card_erase_of_mem (by simpa using was),card]
        rfl
    · by_cases same : other = agent
      · simp [same,now]
      · rw [Finset.mem_erase,and_iff_right same]
        exact others other same

end Tally

-- What is on the books and what agents have in hand make up what was given out.
def Conserved {Agent : Type u} {Place : Type v} (counts : Place → Bool) (place : Agent → Place) (booked given : Nat) : Prop :=
  ∃ n, Tally counts place n ∧ booked + n = given

namespace Conserved
variable {Agent : Type u} {Place : Type v} {counts : Place → Bool} {place : Agent → Place} {booked given later more : Nat}

theorem start (nobody : ∀ agent, counts (place agent) = false) : Conserved counts place booked booked :=
  ⟨0,.none nobody,rfl⟩

theorem le (old : Conserved counts place booked given) (agent : Agent) :
    booked + (counts (place agent)).toNat ≤ given := by
  obtain ⟨n,tally,sum⟩ := old
  have one := tally.le agent
  omega

theorem eq_iff (old : Conserved counts place booked given) :
    booked = given ↔ ∀ agent, counts (place agent) = false := by
  obtain ⟨n,tally,sum⟩ := old
  rw [← tally.eq_zero_iff]
  omega

theorem update [DecidableEq Agent] (old : Conserved counts place booked given) (agent : Agent) (next : Place)
    (balance : later + (counts next).toNat + given = booked + (counts (place agent)).toNat + more) :
    Conserved counts (Function.update place agent next) later more := by
  obtain ⟨n,tally,sum⟩ := old
  have one := tally.le agent
  exact ⟨_,tally.update agent next,by omega⟩

end Conserved
end NewMuduo
