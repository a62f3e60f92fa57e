import NewMuduo.Machine

namespace NewMuduo.Machine
variable {State : Type u} {Label : Type v} {Abstract : Type w} {Other : Type x} {Event : Type y}
  {m : Machine State Label} {n : Machine Abstract Other} {sees : State → Label → State → List Event}
  {shows : Abstract → Other → Abstract → List Event}

-- What an observer of the steps of a run sees.
def trace (m : Machine State Label) (sees : State → Label → State → List Event) : State → List Label → List Event
  | _,[] => []
  | s,label :: rest =>
    match m.next s label with
    | none => []
    | some after => sees s label after ++ m.trace sees after rest

theorem trace_cons (taken : m.next s label = some middle) :
    m.trace sees s (label :: rest) = sees s label middle ++ m.trace sees middle rest := by
  simp only [trace,taken]

theorem run_one (taken : m.next s label = some after) : m.run s [label] = some after := by
  rw [run_cons taken]
  rfl

theorem trace_one (taken : m.next s label = some after) : m.trace sees s [label] = sees s label after := by
  rw [trace_cons taken]
  exact List.append_nil _

theorem trace_append (ran : m.run s first = some middle) :
    m.trace sees s (first ++ second) = m.trace sees s first ++ m.trace sees middle second := by
  induction first generalizing s with
  | nil => cases Option.some.inj ran; rfl
  | cons label rest ih =>
    obtain ⟨next,taken,ran⟩ := run_cons_parts ran
    rw [List.cons_append,trace_cons taken,trace_cons taken,ih ran,List.append_assoc]

theorem trace_map {Seen : Type z} (f : Event → Seen) (labels : List Label) :
    m.trace (fun s label after => (sees s label after).map f) s labels = (m.trace sees s labels).map f := by
  induction labels generalizing s with
  | nil => rfl
  | cons label rest ih =>
    simp only [trace]
    split
    · rfl
    · rw [ih,List.map_append]

-- Forward simulation: each step is matched by a run of the other machine that
-- looks the same, so each run is.
theorem simulates {rel : State → Abstract → Prop} {guard : State → Label → Prop}
    (matched : ∀ s a label after, rel s a → guard s label → m.next s label = some after →
      ∃ others final, n.run a others = some final ∧ n.trace shows a others = sees s label after ∧ rel after final)
    (related : rel s a) (met : m.Meets guard s labels) (ran : m.run s labels = some last) :
    ∃ others final, n.run a others = some final ∧ n.trace shows a others = m.trace sees s labels ∧ rel last final := by
  induction labels generalizing s a with
  | nil =>
    cases Option.some.inj ran
    exact ⟨[],a,rfl,rfl,related⟩
  | cons label rest ih =>
    obtain ⟨middle,taken,ran⟩ := run_cons_parts ran
    obtain ⟨first,reached,one,same,kept⟩ := matched s a label middle related met.1 taken
    obtain ⟨second,final,two,equal,ended⟩ := ih kept (met.2 middle taken) ran
    refine ⟨first ++ second,final,?_,?_,ended⟩
    · rw [run_append one]
      exact two
    · rw [trace_append one,trace_cons taken,same,equal]

end NewMuduo.Machine
