import Mathlib.Data.List.Basic

namespace NewMuduo

-- Starting states and a partial step: a label that a state does not admit has
-- no successor. Nothing below depends on what the states or labels are.
structure Machine (State : Type u) (Label : Type v) where
  start : State → Prop
  next : State → Label → Option State

namespace Machine
variable {State : Type u} {Label : Type v} {m : Machine State Label}
  {guard : State → Label → Prop} {good inv : State → Prop}

def run (m : Machine State Label) : State → List Label → Option State
  | s,[] => some s
  | s,label :: rest => (m.next s label).bind (m.run · rest)

-- States reached by steps that all meet a condition on the state they leave
-- and the label they take. Reached is the case of no condition.
inductive ReachedUnder (m : Machine State Label) (guard : State → Label → Prop) : State → Prop where
  | start : m.start s → ReachedUnder m guard s
  | step : ReachedUnder m guard s → guard s label → m.next s label = some after →
      ReachedUnder m guard after

def Reached (m : Machine State Label) : State → Prop := m.ReachedUnder fun _ _ => True

theorem Reached.start (origin : m.start s) : m.Reached s := ReachedUnder.start origin

theorem Reached.step (path : m.Reached s) (taken : m.next s label = some after) : m.Reached after :=
  ReachedUnder.step path trivial taken

-- One step keeps the invariant; so does every path.
structure Preserves (m : Machine State Label) (guard : State → Label → Prop) (inv : State → Prop) : Prop where
  start : ∀ s, m.start s → inv s
  step : ∀ s label after, inv s → guard s label → m.next s label = some after → inv after

theorem Preserves.reached (kept : m.Preserves guard inv) (path : m.ReachedUnder guard s) : inv s := by
  induction path with
  | start origin => exact kept.start _ origin
  | step _ met taken ih => exact kept.step _ _ _ ih met taken

theorem run_cons (taken : m.next s label = some middle) : m.run s (label :: rest) = m.run middle rest := by
  simp [run,taken]

theorem run_cons_parts (ran : m.run s (label :: rest) = some after) :
    ∃ middle, m.next s label = some middle ∧ m.run middle rest = some after :=
  Option.bind_eq_some_iff.mp ran

theorem run_append (ran : m.run s first = some middle) : m.run s (first ++ second) = m.run middle second := by
  induction first generalizing s with
  | nil => cases Option.some.inj ran; rfl
  | cons label rest ih =>
    obtain ⟨next,taken,ran⟩ := run_cons_parts ran
    rw [List.cons_append,run_cons taken,ih ran]

theorem Reached.run (path : m.Reached s) (ran : m.run s labels = some after) : m.Reached after := by
  induction labels generalizing s with
  | nil => cases Option.some.inj ran; exact path
  | cons label rest ih =>
    obtain ⟨middle,taken,ran⟩ := run_cons_parts ran
    exact ih (path.step taken) ran

-- The condition at every step of one run, and the property at every state of it.
def Meets (m : Machine State Label) (guard : State → Label → Prop) : State → List Label → Prop
  | _,[] => True
  | s,label :: rest => guard s label ∧ ∀ after, m.next s label = some after → m.Meets guard after rest

def Throughout (m : Machine State Label) (good : State → Prop) : State → List Label → Prop
  | s,[] => good s
  | s,label :: rest => good s ∧ ∀ after, m.next s label = some after → m.Throughout good after rest

theorem Meets.cons (met : guard s label) (taken : m.next s label = some after) (rest : m.Meets guard after labels) :
    m.Meets guard s (label :: labels) := by
  refine ⟨met,fun other same => ?_⟩
  cases Option.some.inj (taken.symm.trans same)
  exact rest

theorem Throughout.cons (here : good s) (taken : m.next s label = some after) (rest : m.Throughout good after labels) :
    m.Throughout good s (label :: labels) := by
  refine ⟨here,fun other same => ?_⟩
  cases Option.some.inj (taken.symm.trans same)
  exact rest

-- The condition and the property can be evaluated along a run.
instance decidableMeets [∀ s label, Decidable (guard s label)] : ∀ s labels, Decidable (m.Meets guard s labels)
  | _,[] => .isTrue trivial
  | s,label :: rest =>
    match taken : m.next s label with
    | none => decidable_of_iff (guard s label) ⟨fun met => ⟨met,fun _ same => (by cases taken.symm.trans same)⟩,And.left⟩
    | some after =>
      have := decidableMeets after rest
      decidable_of_iff (guard s label ∧ m.Meets guard after rest)
        ⟨fun both => ⟨both.1,fun _ same => Option.some.inj (taken.symm.trans same) ▸ both.2⟩,
          fun both => ⟨both.1,both.2 after taken⟩⟩

instance decidableThroughout [∀ s, Decidable (good s)] : ∀ s labels, Decidable (m.Throughout good s labels)
  | s,[] => inferInstanceAs (Decidable (good s))
  | s,label :: rest =>
    match taken : m.next s label with
    | none => decidable_of_iff (good s) ⟨fun here => ⟨here,fun _ same => (by cases taken.symm.trans same)⟩,And.left⟩
    | some after =>
      have := decidableThroughout after rest
      decidable_of_iff (good s ∧ m.Throughout good after rest)
        ⟨fun both => ⟨both.1,fun _ same => Option.some.inj (taken.symm.trans same) ▸ both.2⟩,
          fun both => ⟨both.1,both.2 after taken⟩⟩

theorem run_meets (kept : ∀ s label after, inv s → guard s label → m.next s label = some after → inv after)
    (valid : inv s) (met : m.Meets guard s labels) (ran : m.run s labels = some final) : inv final := by
  induction labels generalizing s with
  | nil => cases Option.some.inj ran; exact valid
  | cons label rest ih =>
    obtain ⟨middle,taken,ran⟩ := run_cons_parts ran
    exact ih (kept _ _ _ valid met.1 taken) (met.2 middle taken) ran

theorem meets_labels (met : ∀ label ∈ labels, ∀ s, guard s label) : m.Meets guard s labels := by
  induction labels generalizing s with
  | nil => trivial
  | cons label rest ih =>
    exact ⟨met label List.mem_cons_self s,fun _ _ => ih fun other later => met other (List.mem_cons_of_mem _ later)⟩

-- Over a whole run a condition on the labels alone is met by each of them.
theorem meets_labels_iff {able : Label → Prop} (ran : m.run s labels = some final) :
    m.Meets (fun _ label => able label) s labels ↔ ∀ label ∈ labels, able label := by
  refine ⟨fun met => ?_,fun each => meets_labels fun label member _ => each label member⟩
  induction labels generalizing s with
  | nil => exact fun _ absent => nomatch absent
  | cons label rest ih =>
    obtain ⟨middle,taken,ran⟩ := run_cons_parts ran
    intro other member
    rcases List.mem_cons.mp member with rfl | later
    · exact met.1
    · exact ih ran (met.2 middle taken) other later

theorem meets_append (ran : m.run s first = some middle) (met : m.Meets guard s first) (rest : m.Meets guard middle second) :
    m.Meets guard s (first ++ second) := by
  induction first generalizing s with
  | nil => cases Option.some.inj ran; exact rest
  | cons label others ih =>
    obtain ⟨next,taken,ran⟩ := run_cons_parts ran
    exact .cons met.1 taken (ih ran (met.2 next taken))

theorem ReachedUnder.along (path : m.ReachedUnder guard s) (met : m.Meets guard s labels)
    (ran : m.run s labels = some final) : m.ReachedUnder guard final := by
  induction labels generalizing s with
  | nil => cases Option.some.inj ran; exact path
  | cons label rest ih =>
    obtain ⟨middle,taken,ran⟩ := run_cons_parts ran
    exact ih (path.step met.1 taken) (met.2 middle taken) ran

theorem Throughout.first (through : m.Throughout good s labels) : good s := by
  cases labels with
  | nil => exact through
  | cons _ _ => exact through.1

theorem Throughout.last (through : m.Throughout good s labels) (ran : m.run s labels = some final) : good final := by
  induction labels generalizing s with
  | nil => cases Option.some.inj ran; exact through
  | cons label rest ih =>
    obtain ⟨middle,taken,ran⟩ := run_cons_parts ran
    exact ih (through.2 middle taken) ran

-- A property that a step never restores holds throughout a run when it holds
-- at the end.
theorem throughout_iff_last (kept : ∀ s label after, inv s → m.next s label = some after → inv after)
    (back : ∀ s label after, inv s → m.next s label = some after → good after → good s)
    (valid : inv s) (ran : m.run s labels = some final) : m.Throughout good s labels ↔ good final := by
  induction labels generalizing s with
  | nil => cases Option.some.inj ran; exact Iff.rfl
  | cons label rest ih =>
    obtain ⟨middle,taken,ran⟩ := run_cons_parts ran
    have tail := ih (kept _ _ _ valid taken) ran
    constructor
    · exact fun through => tail.mp (through.2 middle taken)
    · intro last
      have through := tail.mpr last
      exact .cons (back _ _ _ valid taken through.first) taken through

-- Steps that meet the condition keep the property throughout a run.
theorem throughout_of_meets (sound : ∀ s, inv s → good s)
    (kept : ∀ s label after, inv s → guard s label → m.next s label = some after → inv after)
    (valid : inv s) (met : m.Meets guard s labels) : m.Throughout good s labels := by
  induction labels generalizing s with
  | nil => exact sound _ valid
  | cons label rest ih => exact ⟨sound _ valid,fun after taken => ih (kept _ _ _ valid met.1 taken) (met.2 after taken)⟩

theorem meets_of_meets {other : State → Label → Prop}
    (kept : ∀ s label after, inv s → guard s label → m.next s label = some after → inv after)
    (implies : ∀ s label after, inv s → guard s label → m.next s label = some after → other s label)
    (valid : inv s) (ran : m.run s labels = some final) (met : m.Meets guard s labels) : m.Meets other s labels := by
  induction labels generalizing s with
  | nil => trivial
  | cons label rest ih =>
    obtain ⟨middle,taken,ran⟩ := run_cons_parts ran
    exact .cons (implies _ _ _ valid met.1 taken) taken (ih (kept _ _ _ valid met.1 taken) ran (met.2 middle taken))

-- Two conditions that agree wherever one of them has held so far.
theorem meets_iff_meets {other : State → Label → Prop}
    (kept : ∀ s label after, inv s → guard s label → m.next s label = some after → inv after)
    (agree : ∀ s label, inv s → (other s label ↔ guard s label)) (valid : inv s) :
    m.Meets other s labels ↔ m.Meets guard s labels := by
  induction labels generalizing s with
  | nil => exact Iff.rfl
  | cons label rest ih =>
    constructor
    · intro met
      have here := (agree s label valid).mp met.1
      exact ⟨here,fun after taken => (ih (kept _ _ _ valid here taken)).mp (met.2 after taken)⟩
    · intro met
      exact ⟨(agree s label valid).mpr met.1,fun after taken => (ih (kept _ _ _ valid met.1 taken)).mpr (met.2 after taken)⟩

-- A step that misses the condition leaves the property behind or dooms the run
-- to do so before it ends: then the condition is exact for runs that end free.
theorem throughout_iff_meets_of_ends {doomed : State → Prop} (sound : ∀ s, inv s → good s)
    (kept : ∀ s label after, inv s → guard s label → m.next s label = some after → inv after)
    (broken : ∀ s label after, inv s → ¬guard s label → m.next s label = some after → doomed after ∨ ¬good after)
    (fated : ∀ s label after, doomed s → m.next s label = some after → doomed after ∨ ¬good after)
    (valid : inv s) (ran : m.run s labels = some final) (ended : ¬doomed final) :
    m.Throughout good s labels ↔ m.Meets guard s labels := by
  have lasts : ∀ {s labels}, m.run s labels = some final → m.Throughout good s labels → ¬doomed s := by
    intro s labels ran through fate
    induction labels generalizing s with
    | nil => cases Option.some.inj ran; exact ended fate
    | cons label rest ih =>
      obtain ⟨middle,taken,ran⟩ := run_cons_parts ran
      have tail := through.2 middle taken
      rcases fated _ _ _ fate taken with later | lost
      · exact ih ran tail later
      · exact lost tail.first
  induction labels generalizing s with
  | nil => exact ⟨fun _ => trivial,fun _ => sound _ valid⟩
  | cons label rest ih =>
    obtain ⟨middle,taken,ran⟩ := run_cons_parts ran
    constructor
    · intro given
      obtain ⟨_,tail⟩ := given
      have met : guard s label := by
        by_contra missed
        have rest := tail middle taken
        rcases broken _ _ _ valid missed taken with fate | lost
        · exact lasts ran rest fate
        · exact lost rest.first
      exact .cons met taken ((ih (kept _ _ _ valid met taken) ran).mp (tail middle taken))
    · exact throughout_of_meets sound kept valid

-- When the property is lost at once, the condition is exact for whole runs.
theorem throughout_iff_meets (sound : ∀ s, inv s → good s)
    (kept : ∀ s label after, inv s → guard s label → m.next s label = some after → inv after)
    (broken : ∀ s label after, inv s → ¬guard s label → m.next s label = some after → ¬good after)
    (valid : inv s) (ran : m.run s labels = some final) :
    m.Throughout good s labels ↔ m.Meets guard s labels := by
  have none : ∀ s label after, False → m.next s label = some after → False ∨ ¬good after := fun _ _ _ fate => fate.elim
  have at_once : ∀ s label after, inv s → ¬guard s label → m.next s label = some after → False ∨ ¬good after :=
    fun s label after old missed taken => .inr (broken s label after old missed taken)
  exact throughout_iff_meets_of_ends sound kept at_once none valid ran id

-- The same among the runs that meet another condition.
theorem throughout_iff_meets_given {given : State → Label → Prop} (sound : ∀ s, inv s → good s)
    (kept : ∀ s label after, inv s → given s label → guard s label → m.next s label = some after → inv after)
    (broken : ∀ s label after, inv s → given s label → ¬guard s label → m.next s label = some after → ¬good after)
    (valid : inv s) (ran : m.run s labels = some final) (met : m.Meets given s labels) :
    m.Throughout good s labels ↔ m.Meets guard s labels := by
  induction labels generalizing s with
  | nil => exact ⟨fun _ => trivial,fun _ => sound _ valid⟩
  | cons label rest ih =>
    obtain ⟨middle,taken,ran⟩ := run_cons_parts ran
    have tail : guard s label → (m.Throughout good middle rest ↔ m.Meets guard middle rest) :=
      fun here => ih (kept _ _ _ valid met.1 here taken) ran (met.2 middle taken)
    constructor
    · intro through
      have here : guard s label := by
        by_contra missed
        exact broken _ _ _ valid met.1 missed taken (through.2 middle taken).first
      exact .cons here taken ((tail here).mp (through.2 middle taken))
    · intro both
      exact .cons (sound _ valid) taken ((tail both.1).mpr (both.2 middle taken))

-- A counter that a step raises exactly when it misses the condition has stayed
-- the same over a run exactly when the run meets it. good may be known of the
-- last state only.
theorem run_count_iff_meets {count : State → Nat}
    (kept : ∀ s label after, inv s → m.next s label = some after → inv after)
    (back : ∀ s label after, inv s → m.next s label = some after → good after → good s)
    (same : ∀ s label after, inv s → good s → guard s label → m.next s label = some after → count after = count s)
    (more : ∀ s label after, inv s → good s → ¬guard s label → m.next s label = some after → count s < count after)
    (valid : inv s) (ran : m.run s labels = some final) (ended : good final) :
    good s ∧ count s ≤ count final ∧ (count final = count s ↔ m.Meets guard s labels) := by
  induction labels generalizing s with
  | nil => cases Option.some.inj ran; exact ⟨ended,Nat.le_refl _,iff_of_true rfl trivial⟩
  | cons label rest ih =>
    obtain ⟨middle,taken,ran⟩ := run_cons_parts ran
    obtain ⟨later,above,exact_rest⟩ := ih (kept _ _ _ valid taken) ran
    have now := back _ _ _ valid taken later
    by_cases met : guard s label
    · have equal := same _ _ _ valid now met taken
      refine ⟨now,Nat.le_trans (Nat.le_of_eq equal.symm) above,?_⟩
      rw [← equal,exact_rest]
      constructor
      · intro tail
        exact .cons met taken tail
      · exact fun both => both.2 middle taken
    · have less := more _ _ _ valid now met taken
      refine ⟨now,Nat.le_trans (Nat.le_of_lt less) above,iff_of_false ?_ fun both => met both.1⟩
      intro equal
      omega

-- Forward simulation by a function: the abstraction of every run is the
-- abstract fold over the same labels.
theorem run_abstracts {abs : State → Abstract} {spec : Abstract → Label → Abstract}
    (kept : ∀ s label after, inv s → m.next s label = some after → inv after)
    (commutes : ∀ s label after, inv s → m.next s label = some after → abs after = spec (abs s) label)
    (valid : inv s) (ran : m.run s labels = some final) :
    inv final ∧ abs final = labels.foldl spec (abs s) := by
  induction labels generalizing s with
  | nil => cases Option.some.inj ran; exact ⟨valid,rfl⟩
  | cons label rest ih =>
    obtain ⟨middle,taken,ran⟩ := run_cons_parts ran
    have tail := ih (kept _ _ _ valid taken) ran
    rw [List.foldl_cons,← commutes _ _ _ valid taken]
    exact tail

-- The machine of a precondition and an effect for each label.
def guarded (start : State → Prop) (allowed : State → Label → Prop)
    [∀ s label, Decidable (allowed s label)] (apply : State → Label → State) : Machine State Label where
  start := start
  next s label := if allowed s label then some (apply s label) else none

section guarded
variable {start : State → Prop} {allowed : State → Label → Prop} [∀ s label, Decidable (allowed s label)]
  {apply : State → Label → State}

theorem guarded_parts : (guarded start allowed apply).next s label = some after ↔
    allowed s label ∧ apply s label = after := by
  simp only [guarded]
  split
  · rename_i able
    simp [able]
  · rename_i unable
    simp [unable]

theorem guarded_run (able : allowed s label) : (guarded start allowed apply).run s (label :: labels) =
    (guarded start allowed apply).run (apply s label) labels :=
  run_cons (guarded_parts.mpr ⟨able,rfl⟩)

theorem guarded_preserves (initial : ∀ s, start s → inv s)
    (kept : ∀ s label, inv s → allowed s label → inv (apply s label)) :
    (guarded start allowed apply).Preserves (fun _ _ => True) inv := by
  refine ⟨initial,?_⟩
  intro s label after old _ taken
  obtain ⟨able,rfl⟩ := guarded_parts.mp taken
  exact kept s label old able

end guarded

end Machine
end NewMuduo
