import NewMuduo.Machine
import Mathlib.Logic.Function.Basic

namespace NewMuduo

-- What a resumable computation does next: it ends with a value or an error, it
-- calls another one, or it leaves until somebody brings it an answer.
inductive Does (Body : Type u) (Value : Type v) (Error : Type w) where
  | ends (outcome : Except Error Value)
  | calls (callee : Body)
  | leaves
  deriving DecidableEq, Repr

-- A program of such computations: what each of its local states does, and how
-- it goes on with the outcome of a call or with an answer.
structure Routines (Body : Type u) (Value : Type v) (Error : Type w) where
  does : Body → Does Body Value Error
  resume : Body → Except Error Value → Body

namespace Routines
variable {Body : Type u} {Value : Type v} {Error : Type w}

-- The plain meaning: a call is the evaluation of the callee, and the answers
-- are used up in the order in which they are asked for.
inductive Evaluates (code : Routines Body Value Error) : Body → List Value → Except Error Value → Prop where
  | ends : code.does body = .ends outcome → Evaluates code body [] outcome
  | calls : code.does body = .calls callee → Evaluates code callee first result →
      Evaluates code (code.resume body result) later outcome → Evaluates code body (first ++ later) outcome
  | leaves : code.does body = .leaves → Evaluates code (code.resume body (.ok answer)) later outcome →
      Evaluates code body (answer :: later) outcome

variable {code : Routines Body Value Error} {body callee : Body} {callers : List Body} {answers : List Value}
  {final outcome : Except Error Value}

theorem evaluates_ends (here : code.does body = .ends outcome) :
    code.Evaluates body answers final ↔ answers = [] ∧ final = outcome := by
  constructor
  · intro whole
    cases whole with
    | ends same => cases here.symm.trans same; exact ⟨rfl,rfl⟩
    | calls same => cases here.symm.trans same
    | leaves same => cases here.symm.trans same
  · intro parts
    obtain ⟨rfl,rfl⟩ := parts
    exact .ends here

theorem evaluates_calls (here : code.does body = .calls callee) :
    code.Evaluates body answers final ↔ ∃ first later result, answers = first ++ later ∧
      code.Evaluates callee first result ∧ code.Evaluates (code.resume body result) later final := by
  constructor
  · intro whole
    cases whole with
    | ends same => cases here.symm.trans same
    | calls same one rest => cases here.symm.trans same; exact ⟨_,_,_,rfl,one,rest⟩
    | leaves same => cases here.symm.trans same
  · intro parts
    obtain ⟨first,later,result,rfl,one,rest⟩ := parts
    exact .calls here one rest

theorem evaluates_leaves (here : code.does body = .leaves) :
    code.Evaluates body answers final ↔
      ∃ answer later, answers = answer :: later ∧ code.Evaluates (code.resume body (.ok answer)) later final := by
  constructor
  · intro whole
    cases whole with
    | ends same => cases here.symm.trans same
    | calls same => cases here.symm.trans same
    | leaves same rest => exact ⟨_,_,rfl,rest⟩
  · intro parts
    obtain ⟨answer,later,rfl,rest⟩ := parts
    exact .leaves here rest

-- A computation under its callers, the innermost first: its outcome goes to the
-- first of them.
def Means (code : Routines Body Value Error) : List Body → Body → List Value → Except Error Value → Prop
  | [],body,answers,final => code.Evaluates body answers final
  | caller :: callers,body,answers,final => ∃ first later result, answers = first ++ later ∧
      code.Evaluates body first result ∧ code.Means callers (code.resume caller result) later final

-- The same when the computation has ended.
def Returns (code : Routines Body Value Error) (outcome : Except Error Value) :
    List Body → List Value → Except Error Value → Prop
  | [],answers,final => answers = [] ∧ final = outcome
  | caller :: callers,answers,final => code.Means callers (code.resume caller outcome) answers final

theorem means_ends (here : code.does body = .ends outcome) :
    code.Means callers body answers final ↔ code.Returns outcome callers answers final := by
  cases callers with
  | nil => exact evaluates_ends here
  | cons caller callers =>
    constructor
    · intro parts
      obtain ⟨first,later,result,rfl,one,rest⟩ := parts
      obtain ⟨rfl,rfl⟩ := (evaluates_ends here).mp one
      exact rest
    · exact fun rest => ⟨[],answers,outcome,rfl,.ends here,rest⟩

theorem means_calls (here : code.does body = .calls callee) :
    code.Means callers body answers final ↔ code.Means (body :: callers) callee answers final := by
  cases callers with
  | nil => exact evaluates_calls here
  | cons caller callers =>
    constructor
    · intro parts
      obtain ⟨both,last,outer,rfl,one,rest⟩ := parts
      obtain ⟨first,later,result,rfl,two,three⟩ := (evaluates_calls here).mp one
      exact ⟨first,later ++ last,result,List.append_assoc _ _ _,two,later,last,outer,rfl,three,rest⟩
    · intro parts
      obtain ⟨first,others,result,rfl,two,later,last,outer,rfl,three,rest⟩ := parts
      exact ⟨first ++ later,last,outer,(List.append_assoc _ _ _).symm,.calls here two three,rest⟩

theorem means_leaves (here : code.does body = .leaves) :
    code.Means callers body answers final ↔
      ∃ answer later, answers = answer :: later ∧ code.Means callers (code.resume body (.ok answer)) later final := by
  cases callers with
  | nil => exact evaluates_leaves here
  | cons caller callers =>
    constructor
    · intro parts
      obtain ⟨first,last,result,rfl,one,rest⟩ := parts
      obtain ⟨answer,later,rfl,two⟩ := (evaluates_leaves here).mp one
      exact ⟨answer,later ++ last,rfl,later,last,result,rfl,two,rest⟩
    · intro parts
      obtain ⟨answer,_,rfl,later,last,result,rfl,two,rest⟩ := parts
      exact ⟨answer :: later,last,result,rfl,.leaves here two,rest⟩

end Routines

inductive Doing (Value : Type v) (Error : Type w) where
  | begins
  | runs
  | waits
  | ended (outcome : Except Error Value)
  deriving DecidableEq, Repr

-- One chain of calls: the innermost computation with its callers, each under a
-- name, and what the chain started from and was answered so far.
structure CallStack (Name : Type n) (Body : Type u) (Value : Type v) (Error : Type w) where
  origin : Body
  given : List Value
  leaf : Name
  body : Body
  doing : Doing Value Error
  callers : List (Name × Body)

namespace CallStack
variable {Name : Type n} {Body : Type u} {Value : Type v} {Error : Type w} {code : Routines Body Value Error}
  {s : CallStack Name Body Value Error} {name : Name} {answer : Value} {outcome : Except Error Value}

def start (name : Name) (body : Body) : CallStack Name Body Value Error := ⟨body,[],name,body,.begins,[]⟩

def begin (s : CallStack Name Body Value Error) : CallStack Name Body Value Error := {s with doing := .runs}

def resume (code : Routines Body Value Error) (s : CallStack Name Body Value Error) (answer : Value) :
    CallStack Name Body Value Error :=
  {s with given := s.given ++ [answer],body := code.resume s.body (.ok answer),doing := .runs}

-- The chain has control; a callee gets a name of its own.
def step (code : Routines Body Value Error) (new : Name) (s : CallStack Name Body Value Error) :
    CallStack Name Body Value Error :=
  match s.doing,s.callers with
  | .ended outcome,(caller,body) :: callers =>
    {s with leaf := caller,body := code.resume body outcome,doing := .runs,callers := callers}
  | .runs,_ =>
    match code.does s.body with
    | .ends outcome => {s with doing := .ended outcome}
    | .calls callee => {s with leaf := new,body := callee,callers := (s.leaf,s.body) :: s.callers}
    | .leaves => {s with doing := .waits}
  | _,_ => s

theorem step_ends {new : Name} (runs : s.doing = .runs) (here : code.does s.body = .ends outcome) :
    s.step code new = {s with doing := .ended outcome} := by
  simp only [step,runs,here]

theorem step_calls {new : Name} {callee : Body} (runs : s.doing = .runs) (here : code.does s.body = .calls callee) :
    s.step code new = {s with leaf := new,body := callee,callers := (s.leaf,s.body) :: s.callers} := by
  simp only [step,runs,here]

theorem step_leaves {new : Name} (runs : s.doing = .runs) (here : code.does s.body = .leaves) :
    s.step code new = {s with doing := .waits} := by
  simp only [step,runs,here]

theorem step_returns {new caller : Name} {body : Body} {callers : List (Name × Body)} (ended : s.doing = .ended outcome)
    (called : s.callers = (caller,body) :: callers) : s.step code new =
      {s with leaf := caller,body := code.resume body outcome,doing := .runs,callers := callers} := by
  simp only [step,ended,called]

-- It still has something to do by itself.
def live (s : CallStack Name Body Value Error) : Bool :=
  match s.doing with
  | .runs => true
  | .ended _ => !s.callers.isEmpty
  | _ => false

def Says (code : Routines Body Value Error) (s : CallStack Name Body Value Error) :
    List Value → Except Error Value → Prop :=
  match s.doing with
  | .ended outcome => code.Returns outcome (s.callers.map Prod.snd)
  | _ => code.Means (s.callers.map Prod.snd) s.body

-- What was answered, with what the rest of the chain makes of more answers, is
-- the meaning of what it started from. While it waits it does ask for one.
structure Faithful (code : Routines Body Value Error) (s : CallStack Name Body Value Error) : Prop where
  agrees : ∀ more final, code.Evaluates s.origin (s.given ++ more) final ↔ s.Says code more final
  asks : s.doing = .waits → code.does s.body = .leaves
  fresh : s.doing = .begins → s.callers = []

theorem Faithful.start (name : Name) (body : Body) : Faithful code (CallStack.start name body) :=
  ⟨fun _ _ => Iff.rfl,fun absent => (by cases absent),fun _ => rfl⟩

theorem Faithful.begin (old : Faithful code s) (fresh : s.doing = .begins) : Faithful code s.begin := by
  refine ⟨fun more final => ?_,fun absent => (by cases absent),fun absent => (by cases absent)⟩
  have agrees := old.agrees more final
  simp only [Says,fresh] at agrees
  exact agrees

theorem Faithful.resume (old : Faithful code s) (waits : s.doing = .waits) : Faithful code (s.resume code answer) := by
  refine ⟨fun more final => ?_,fun absent => (by cases absent),fun absent => (by cases absent)⟩
  have agrees := old.agrees (answer :: more) final
  simp only [Says,waits] at agrees
  rw [Routines.means_leaves (old.asks waits)] at agrees
  simp only [CallStack.resume,Says,List.append_assoc,List.singleton_append]
  rw [agrees]
  constructor
  · intro parts
    obtain ⟨_,_,same,rest⟩ := parts
    cases same
    exact rest
  · exact fun rest => ⟨answer,more,rfl,rest⟩

theorem Faithful.step (old : Faithful code s) (new : Name) : Faithful code (s.step code new) := by
  unfold CallStack.step
  split
  · rename_i outcome caller body callers ended called
    refine ⟨fun more final => ?_,fun absent => (by cases absent),fun absent => (by cases absent)⟩
    have agrees := old.agrees more final
    simp only [Says,ended,called] at agrees
    exact agrees
  · rename_i callers running
    have agrees := old.agrees
    simp only [Says,running] at agrees
    split
    · rename_i outcome here
      exact ⟨fun more final => (agrees more final).trans (Routines.means_ends here),fun absent => (by cases absent),
        fun absent => (by cases absent)⟩
    · rename_i callee here
      refine ⟨fun more final => ?_,fun absent => (by cases running.symm.trans absent),
        fun absent => (by cases running.symm.trans absent)⟩
      simp only [Says,running,List.map_cons]
      exact (agrees more final).trans (Routines.means_calls here)
    · rename_i here
      exact ⟨agrees,fun _ => here,fun absent => (by cases absent)⟩
  · exact old

-- A chain without callers that has ended did so with its meaning, and one that
-- has not ended and has control back needs more answers.
theorem Faithful.ended_iff (old : Faithful code s) (quiet : s.live = false) (begun : s.doing ≠ .begins) :
    s.doing = .ended outcome ↔ code.Evaluates s.origin s.given outcome := by
  have agrees := old.agrees [] outcome
  rw [List.append_nil] at agrees
  rw [agrees]
  unfold Says
  cases doing : s.doing with
  | begins => exact absurd doing begun
  | runs => simp [live,doing] at quiet
  | waits =>
    refine iff_of_false (fun absent => (by cases absent)) ?_
    dsimp only
    rw [Routines.means_leaves (old.asks doing)]
    intro parts
    obtain ⟨_,_,absent,_⟩ := parts
    cases absent
  | ended last =>
    have none : s.callers = [] := by simpa [live,doing] using quiet
    dsimp only
    rw [none]
    simp [Routines.Returns,eq_comm]

end CallStack

-- Many such chains. Those that have control are nested: each runs code that
-- begins or resumes the one before it in active.
structure CallStacks (Name : Type n) (Body : Type u) (Value : Type v) (Error : Type w) where
  chains : Name → Option (CallStack Name Body Value Error)
  active : List Name

namespace CallStacks
variable {Name : Type n} {Body : Type u} {Value : Type v} {Error : Type w} {code : Routines Body Value Error}
  {a after : CallStacks Name Body Value Error} {name : Name} {s : CallStack Name Body Value Error}

-- Code outside the chains runs, or code of the chain in control.
def inCode (a : CallStacks Name Body Value Error) : Bool :=
  match a.active with
  | [] => true
  | name :: _ => (a.chains name).any fun s => s.doing matches .runs

inductive Label (Name : Type n) (Body : Type u) (Value : Type v) where
  | start (name : Name) (body : Body)
  | begin (name : Name)
  | resume (name : Name) (answer : Value)
  | step (new : Name)
  | drop (name : Name)

variable [DecidableEq Name]

def place (a : CallStacks Name Body Value Error) (name : Name) (s : CallStack Name Body Value Error)
    (active : List Name) : CallStacks Name Body Value Error :=
  ⟨Function.update a.chains name (some s),if s.live then name :: active else active⟩

def drop (a : CallStacks Name Body Value Error) (name : Name) : CallStacks Name Body Value Error :=
  {a with chains := Function.update a.chains name none}

@[simp] theorem place_self {active : List Name} : (a.place name s active).chains name = some s := Function.update_self _ _ _

theorem place_other {active : List Name} {other : Name} (differ : other ≠ name) :
    (a.place name s active).chains other = a.chains other := Function.update_of_ne differ _ _

@[simp] theorem drop_self : (a.drop name).chains name = none := Function.update_self _ _ _

theorem drop_other {other : Name} (differ : other ≠ name) : (a.drop name).chains other = a.chains other :=
  Function.update_of_ne differ _ _

def next (code : Routines Body Value Error) (a : CallStacks Name Body Value Error) :
    Label Name Body Value → Option (CallStacks Name Body Value Error)
  | .start name body => if (a.chains name).isNone then some (a.place name (.start name body) a.active) else none
  | .begin name => do
    let s ← a.chains name
    match a.inCode,s.doing with
    | true,.begins => some (a.place name s.begin a.active)
    | _,_ => none
  | .resume name answer => do
    let s ← a.chains name
    match a.inCode,s.doing with
    | true,.waits => some (a.place name (s.resume code answer) a.active)
    | _,_ => none
  | .step new =>
    match a.active with
    | [] => none
    | name :: rest => (a.chains name).map fun s => a.place name (s.step code new) rest
  | .drop name => if name ∈ a.active then none else some (a.drop name)

def machine (code : Routines Body Value Error) : Machine (CallStacks Name Body Value Error) (Label Name Body Value) where
  start a := a = ⟨fun _ => none,[]⟩
  next := next code

-- The chains with something to do by themselves are those in active, and each
-- but the innermost of them runs code.
structure Tidy (code : Routines Body Value Error) (a : CallStacks Name Body Value Error) : Prop where
  active : ∀ name, name ∈ a.active ↔ ∃ s, a.chains name = some s ∧ s.live = true
  once : a.active.Nodup
  outer : ∀ name ∈ a.active.tail, ∃ s, a.chains name = some s ∧ s.doing = .runs
  faithful : ∀ name s, a.chains name = some s → s.Faithful code

theorem place_tidy {active : List Name} (known : ∀ other, other ≠ name →
      (other ∈ active ↔ ∃ s, a.chains other = some s ∧ s.live = true)) (apart : name ∉ active) (once : active.Nodup)
    (outer : ∀ other ∈ active, ∃ s, a.chains other = some s ∧ s.doing = .runs)
    (faithful : ∀ name s, a.chains name = some s → s.Faithful code) (mine : s.Faithful code) :
    Tidy code (a.place name s active) := by
  have kept : ∀ other ∈ active, ∃ t, (a.place name s active).chains other = some t ∧ t.doing = .runs := by
    intro other member
    rw [place_other (by rintro rfl; exact apart member)]
    exact outer other member
  refine ⟨?_,?_,?_,?_⟩
  · intro other
    by_cases same : other = name
    · subst same
      rw [place_self]
      cases alive : s.live with
      | true => simp [place,alive]
      | false => simp [place,alive,apart]
    · rw [place_other same,← known other same]
      simp only [place]
      split
      · simp [same]
      · rfl
  · simp only [place]
    split
    · exact List.nodup_cons.mpr ⟨apart,once⟩
    · exact once
  · intro other member
    refine kept other ?_
    simp only [place] at member
    split at member
    · exact member
    · exact List.mem_of_mem_tail member
  · intro other t found
    by_cases same : other = name
    · subst same
      rw [place_self] at found
      cases found
      exact mine
    · rw [place_other same] at found
      exact faithful other t found

omit [DecidableEq Name] in
theorem Tidy.outside (old : Tidy code a) (found : a.chains name = some s) (quiet : s.live = false) : name ∉ a.active := by
  intro member
  obtain ⟨_,same,alive⟩ := (old.active name).mp member
  cases found.symm.trans same
  exact absurd alive (by simp [quiet])

-- A chain that does nothing by itself gets control while code runs.
theorem Tidy.enter (old : Tidy code a) (able : a.inCode = true) (found : a.chains name = some s) (quiet : s.live = false)
    {t : CallStack Name Body Value Error} (mine : t.Faithful code) : Tidy code (a.place name t a.active) := by
  refine place_tidy (fun other _ => old.active other) (old.outside found quiet) old.once ?_ old.faithful mine
  intro other member
  cases order : a.active with
  | nil => rw [order] at member; cases member
  | cons first rest =>
    rw [order] at member
    rcases List.mem_cons.mp member with rfl | later
    · simp only [inCode,order,Option.any_eq_true] at able
      obtain ⟨t,there,running⟩ := able
      refine ⟨t,there,?_⟩
      cases doing : t.doing <;> simp_all
    · exact old.outer other (by rw [order]; exact later)

theorem Tidy.next (old : Tidy code a) {label : Label Name Body Value} (taken : next code a label = some after) :
    Tidy code after := by
  cases label with
  | start name body =>
    simp only [CallStacks.next,Option.isNone_iff_eq_none] at taken
    split at taken
    · rename_i fresh
      cases taken
      have apart : name ∉ a.active := by
        intro member
        obtain ⟨_,there,_⟩ := (old.active name).mp member
        cases fresh.symm.trans there
      have quiet : (CallStack.start name body : CallStack Name Body Value Error).live = false := rfl
      have active : (a.place name (CallStack.start name body) a.active).active = a.active := rfl
      refine ⟨?_,old.once,?_,?_⟩
      · intro other
        rw [active]
        by_cases same : other = name
        · subst same
          simp [apart,quiet]
        · rw [place_other same]
          exact old.active other
      · intro other member
        rw [place_other (by rintro rfl; exact apart (List.mem_of_mem_tail member))]
        exact old.outer other member
      · intro other t found
        by_cases same : other = name
        · subst same
          rw [place_self] at found
          cases found
          exact .start other body
        · rw [place_other same] at found
          exact old.faithful other t found
    · cases taken
  | begin name =>
    obtain ⟨s,found,taken⟩ := Option.bind_eq_some_iff.mp taken
    split at taken
    · rename_i able fresh
      cases taken
      exact old.enter able found (by simp [CallStack.live,fresh]) ((old.faithful name s found).begin fresh)
    · cases taken
  | resume name answer =>
    obtain ⟨s,found,taken⟩ := Option.bind_eq_some_iff.mp taken
    split at taken
    · rename_i able waits
      cases taken
      exact old.enter able found (by simp [CallStack.live,waits]) ((old.faithful name s found).resume waits)
    · cases taken
  | step new =>
    simp only [CallStacks.next] at taken
    split at taken
    · cases taken
    · rename_i name rest order
      obtain ⟨s,found,same⟩ := Option.map_eq_some_iff.mp taken
      rw [← same]
      have once := old.once
      rw [order] at once
      obtain ⟨apart,others⟩ := List.nodup_cons.mp once
      refine place_tidy ?_ apart others ?_ old.faithful ((old.faithful name s found).step new)
      · intro other differ
        rw [← old.active other,order]
        simp [differ]
      · intro other member
        exact old.outer other (by rw [order]; exact member)
  | drop name =>
    simp only [CallStacks.next] at taken
    split at taken
    · cases taken
    · rename_i apart
      cases taken
      refine ⟨?_,old.once,?_,?_⟩
      · intro other
        by_cases same : other = name
        · subst same
          rw [drop_self]
          exact iff_of_false apart (by simp)
        · rw [drop_other same]
          exact old.active other
      · intro other member
        have active : other ∈ a.active := List.mem_of_mem_tail member
        rw [drop_other (by rintro rfl; exact apart active)]
        exact old.outer other member
      · intro other t found
        by_cases same : other = name
        · subst same
          rw [drop_self] at found
          cases found
        · rw [drop_other same] at found
          exact old.faithful other t found

theorem preserves : (machine code : Machine (CallStacks Name Body Value Error) _).Preserves (fun _ _ => True) (Tidy code) where
  start := by
    intro _ origin
    cases origin
    exact ⟨fun name => by simp,.nil,fun _ absent => (by cases absent),fun _ _ absent => (by cases absent)⟩
  step _ _ _ old _ taken := old.next taken

end CallStacks
end NewMuduo
