import NewMuduo.Machine
import Mathlib.Algebra.Order.BigOperators.Group.Finset

namespace NewMuduo

-- A sum of which only one summand may grow.
theorem sum_le_of_others {Item : Type u} [DecidableEq Item] {items : Finset Item} {item : Item}
    (before after : Item → Nat) (member : item ∈ items) (others : ∀ other, other ≠ item → after other ≤ before other) :
    ∑ i ∈ items, after i + before item ≤ ∑ i ∈ items, before i + after item := by
  have rest : ∑ i ∈ items.erase item, after i ≤ ∑ i ∈ items.erase item, before i :=
    Finset.sum_le_sum fun other inside => others other (Finset.ne_of_mem_erase inside)
  have first := Finset.add_sum_erase items before member
  have last := Finset.add_sum_erase items after member
  omega

theorem sum_eq_of_others {Item : Type u} [DecidableEq Item] {items : Finset Item} {item : Item}
    (before after : Item → Nat) (member : item ∈ items) (others : ∀ other, other ≠ item → after other = before other) :
    ∑ i ∈ items, after i + before item = ∑ i ∈ items, before i + after item := by
  have most := sum_le_of_others before after member fun other apart => Nat.le_of_eq (others other apart)
  have least := sum_le_of_others after before member fun other apart => Nat.le_of_eq (others other apart).symm
  omega

namespace Machine
variable {State : Type u} {Label : Type v} {m : Machine State Label} {own : Label → Prop} {inv : State → Prop}
  {measure : State → Nat} {s final : State} {labels : List Label}

-- No label of a kind is admitted any more.
def Rests (m : Machine State Label) (own : Label → Prop) (s : State) : Prop := ∀ label, own label → m.next s label = none

-- The labels of a kind bring a measure down.
def Descends (m : Machine State Label) (own : Label → Prop) (inv : State → Prop) (measure : State → Nat) : Prop :=
  ∀ s label after, inv s → own label → m.next s label = some after → inv after ∧ measure after < measure s

namespace Descends

theorem length_le (down : m.Descends own inv measure) (valid : inv s) (mine : ∀ label ∈ labels, own label)
    (ran : m.run s labels = some final) : inv final ∧ labels.length + measure final ≤ measure s := by
  induction labels generalizing s with
  | nil =>
    cases Option.some.inj ran
    exact ⟨valid,by simp⟩
  | cons label rest ih =>
    obtain ⟨middle,taken,ran⟩ := run_cons_parts ran
    obtain ⟨kept,less⟩ := down _ _ _ valid (mine label List.mem_cons_self) taken
    obtain ⟨last,bound⟩ := ih kept (fun other later => mine other (List.mem_cons_of_mem _ later)) ran
    refine ⟨last,?_⟩
    rw [List.length_cons]
    omega

-- By induction on the measure: a run goes on until it rests.
theorem exists_rest (down : m.Descends own inv measure) (valid : inv s) :
    ∃ labels final, (∀ label ∈ labels, own label) ∧ m.run s labels = some final ∧ m.Rests own final := by
  induction height : measure s using Nat.strong_induction_on generalizing s with
  | _ n ih =>
    by_cases rests : m.Rests own s
    · exact ⟨[],s,fun _ absent => (by cases absent),rfl,rests⟩
    · unfold Rests at rests
      push Not at rests
      obtain ⟨label,mine,able⟩ := rests
      obtain ⟨middle,taken⟩ := Option.ne_none_iff_exists'.mp able
      obtain ⟨kept,less⟩ := down _ _ _ valid mine taken
      obtain ⟨labels,final,all,ran,rests⟩ := ih _ (height ▸ less) kept rfl
      refine ⟨label :: labels,final,fun other member => ?_,(run_cons taken).trans ran,rests⟩
      rcases List.mem_cons.mp member with rfl | later
      · exact mine
      · exact all other later

end Descends

-- Some continuation takes a step of a kind.
def Comes (m : Machine State Label) (event : State → State → Prop) (s : State) : Prop :=
  ∃ labels later label after, m.run s labels = some later ∧ m.next later label = some after ∧ event later after

namespace Comes
variable {event : State → State → Prop} {label : Label} {after : State}

theorem now (taken : m.next s label = some after) (happens : event s after) : m.Comes event s :=
  ⟨[],s,label,after,rfl,taken,happens⟩

theorem later (taken : m.next s label = some after) (comes : m.Comes event after) : m.Comes event s := by
  obtain ⟨labels,last,step,beyond,ran,rest⟩ := comes
  exact ⟨label :: labels,last,step,beyond,(run_cons taken).trans ran,rest⟩

-- An invariant that rules the steps of that kind out rules out that one comes.
theorem never (kept : ∀ s label after, inv s → m.next s label = some after → inv after ∧ ¬event s after) (valid : inv s) :
    ¬m.Comes event s := by
  intro comes
  obtain ⟨labels,last,step,beyond,ran,taken,happens⟩ := comes
  have there : inv last := run_meets (fun s label after old _ taken => (kept s label after old taken).1) valid
    (meets_labels fun _ _ _ => trivial) ran
  exact (kept _ _ _ there taken).2 happens

end Comes
end Machine
end NewMuduo
