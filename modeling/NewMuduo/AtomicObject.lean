import NewMuduo.Simulation
import Mathlib.Logic.Function.Basic

namespace NewMuduo

-- Where a thread is with its call of an object.
inductive AtomicObject.Call (Op : Type u) (Out : Type v) where
  | idle
  | called (op : Op)
  | done (out : Out)
  deriving DecidableEq, Repr

-- An object that threads share: each call takes effect all at once, at some
-- time between its beginning and its end. Nothing here depends on what the
-- object is.
structure AtomicObject (State : Type s) (Op : Type u) (Out : Type v) (Tid : Type w) where
  state : State
  calls : Tid → AtomicObject.Call Op Out

namespace AtomicObject
variable {State : Type s} {Op : Type u} {Out : Type v} {Tid : Type w}

inductive Label (State : Type s) (Op : Type u) (Out : Type v) (Tid : Type w) where
  | call (t : Tid) (op : Op)
  | takeEffect (t : Tid) (state : State) (out : Out)
  | finish (t : Tid)

-- What the callers see.
inductive Event (Op : Type u) (Out : Type v) (Tid : Type w) where
  | called (t : Tid) (op : Op)
  | returned (t : Tid) (out : Out)
  deriving DecidableEq, Repr

-- Which state a call may leave and what it may then return, with the other
-- calls where they are.
abbrev Effects (State : Type s) (Op : Type u) (Out : Type v) (Tid : Type w) :=
  AtomicObject State Op Out Tid → Op → State → Out → Prop

-- A call does one thing, whatever the others are doing.
def Effects.performs (perform : Op → State → State × Out) : Effects State Op Out Tid :=
  fun a op state out => perform op a.state = (state,out)

variable [DecidableEq Tid] {effects : Effects State Op Out Tid} {a : AtomicObject State Op Out Tid} {state : State} {t : Tid} {op : Op}
  {out : Out}

def put (a : AtomicObject State Op Out Tid) (state : State) (t : Tid) (call : Call Op Out) : AtomicObject State Op Out Tid :=
  ⟨state,Function.update a.calls t call⟩

open Classical in
noncomputable def next (effects : Effects State Op Out Tid) (a : AtomicObject State Op Out Tid) :
    Label State Op Out Tid → Option (AtomicObject State Op Out Tid)
  | .call t op => match a.calls t with
    | .idle => some (a.put a.state t (.called op))
    | _ => none
  | .takeEffect t state out => match a.calls t with
    | .called op => if effects a op state out then some (a.put state t (.done out)) else none
    | _ => none
  | .finish t => match a.calls t with
    | .done _ => some (a.put a.state t .idle)
    | _ => none

noncomputable def machine (effects : Effects State Op Out Tid) (initial : State) :
    Machine (AtomicObject State Op Out Tid) (Label State Op Out Tid) where
  start a := a = ⟨initial,fun _ => .idle⟩
  next := next effects

omit [DecidableEq Tid] in
def shows (a : AtomicObject State Op Out Tid) : Label State Op Out Tid → AtomicObject State Op Out Tid → List (Event Op Out Tid)
  | .call t op,_ => [.called t op]
  | .takeEffect _ _ _,_ => []
  | .finish t,_ => match a.calls t with
    | .done out => [.returned t out]
    | _ => []

-- From a some steps lead to final, and the callers see these events.
def Shown (effects : Effects State Op Out Tid) (initial : State) (a final : AtomicObject State Op Out Tid)
    (events : List (Event Op Out Tid)) : Prop :=
  ∃ labels, (machine effects initial).run a labels = some final ∧ (machine effects initial).trace shows a labels = events

variable {initial : State} {final : AtomicObject State Op Out Tid} {events : List (Event Op Out Tid)}

theorem shown_nothing : Shown effects initial a a [] := ⟨[],rfl,rfl⟩

theorem Shown.cons {middle : AtomicObject State Op Out Tid} (label : Label State Op Out Tid) (taken : next effects a label = some middle)
    (rest : Shown effects initial middle final events) : Shown effects initial a final (a.shows label middle ++ events) := by
  obtain ⟨labels,ran,seen⟩ := rest
  exact ⟨label :: labels,(Machine.run_cons taken).trans ran,(Machine.trace_cons taken).trans (by rw [seen])⟩

theorem shown_call (idle : a.calls t = .idle) (op : Op) : Shown effects initial a (a.put a.state t (.called op)) [.called t op] := by
  have taken : next effects a (.call t op) = some (a.put a.state t (.called op)) := by simp only [next,idle]
  exact shown_nothing.cons _ taken

theorem shown_effect (called : a.calls t = .called op) (effect : effects a op state out)
    (rest : Shown effects initial (a.put state t (.done out)) final events) : Shown effects initial a final events := by
  have taken : next effects a (.takeEffect t state out) = some (a.put state t (.done out)) := by
    simp only [next,called,if_pos effect]
  exact rest.cons _ taken

theorem shown_finish (done : a.calls t = .done out) : Shown effects initial a (a.put a.state t .idle) [.returned t out] := by
  have taken : next effects a (.finish t) = some (a.put a.state t .idle) := by simp only [next,done]
  have seen : a.shows (.finish t) (a.put a.state t .idle) = [.returned t out] := by simp only [shows,done]
  have shown : Shown effects initial a (a.put a.state t .idle) (a.shows (.finish t) (a.put a.state t .idle) ++ []) :=
    shown_nothing.cons _ taken
  rwa [seen] at shown

theorem put_calls (a : AtomicObject State Op Out Tid) (state : State) (t : Tid) (call : Call Op Out) :
    (a.put state t call).calls t = call := Function.update_self _ _ _

end AtomicObject
end NewMuduo
