import NewMuduo.CallStacks

namespace NewMuduo

-- A std::coroutine_handle: the number of the frame it names. Numbers are given
-- in the order in which frames are created.
abbrev Handle := Nat

-- coro/Task.h, TaskPromise. No continuation is std::noop_coroutine().
structure TaskPromise (Value Error : Type) where
  continuation : Option Handle
  eptr : Option Error
  result : Option Value
  deriving DecidableEq, Repr

namespace TaskPromise
variable {Value Error : Type}

def new : TaskPromise Value Error := ⟨none,none,none⟩

def return_value (p : TaskPromise Value Error) (val : Value) : TaskPromise Value Error := {p with result := some val}

def unhandled_exception (p : TaskPromise Value Error) (current : Error) : TaskPromise Value Error :=
  {p with eptr := some current}

-- The exception is thrown again; without a result the assert fails.
def get_result (p : TaskPromise Value Error) : Option (Except Error Value) :=
  match p.eptr with
  | some eptr => some (.error eptr)
  | none => p.result.map .ok

end TaskPromise

-- Where a coroutine is: at its two own suspension points, at a co_await of a
-- Task, at a suspension that left its handle with somebody, or running.
inductive Point where
  | initial_suspend
  | running
  | co_await (task : Handle)
  | suspended
  | final_suspend
  deriving DecidableEq, Repr

-- A coroutine frame; root is the frame at the outer end of its awaits.
structure CoroFrame (Body Value Error : Type) where
  body : Body
  point : Point
  promise : TaskPromise Value Error
  root : Handle
  deriving DecidableEq, Repr

def CoroFrame.done {Body Value Error : Type} (f : CoroFrame Body Value Error) : Bool := f.point == .final_suspend

-- The frames on a thread and the coroutines that have control on it, innermost
-- first: each but the first has resumed another one by a plain resume(). The
-- rest records the Tasks that are held by objects, with what was called and
-- the answers their coroutines were resumed with.
structure Coroutines (Body Value Error : Type) where
  frames : Handle → Option (CoroFrame Body Value Error)
  running : List Handle
  created : Nat
  tasks : Handle → Option (Body × List Value)

namespace Coroutines
variable {Body Value Error : Type} {code : Routines Body Value Error} {w : Coroutines Body Value Error}

def new : Coroutines Body Value Error := ⟨fun _ => none,[],0,fun _ => none⟩

def set (w : Coroutines Body Value Error) (h : Handle) (f : CoroFrame Body Value Error) : Coroutines Body Value Error :=
  {w with frames := Function.update w.frames h (some f)}

-- A call of a coroutine function: get_return_object and initial_suspend.
def create (w : Coroutines Body Value Error) (body : Body) (root : Handle) : Coroutines Body Value Error :=
  {w.set w.created ⟨body,.initial_suspend,.new,root⟩ with created := w.created + 1}

-- final_suspend: SymmetricTransfer passes control to continuation_, and to the
-- caller of resume() when that is the noop coroutine.
def final_suspend (w : Coroutines Body Value Error) (h : Handle) (f : CoroFrame Body Value Error)
    (promise : TaskPromise Value Error) (resumers : List Handle) : Coroutines Body Value Error :=
  {w.set h {f with point := .final_suspend,promise := promise} with
    running := match promise.continuation with
      | some continuation => continuation :: resumers
      | none => resumers}

-- Awaiter::await_resume in the coroutine h, whose body goes on with the result
-- or the exception; the awaited Task was a temporary and is destroyed.
def await_resume (code : Routines Body Value Error) (w : Coroutines Body Value Error) (h : Handle)
    (f : CoroFrame Body Value Error) (task : Handle) : Option (Coroutines Body Value Error) := do
  let awaited ← w.frames task
  let outcome ← awaited.promise.get_result
  let w := w.set h {f with body := code.resume f.body outcome,point := .running}
  some {w with frames := Function.update w.frames task none}

-- Awaiter::await_suspend: the awaiter is the continuation, the task has control.
def await_suspend (w : Coroutines Body Value Error) (h : Handle) (f : CoroFrame Body Value Error) (task : Handle)
    (awaited : CoroFrame Body Value Error) (resumers : List Handle) : Coroutines Body Value Error :=
  let w := w.set h {f with point := .co_await task}
  {w.set task {awaited with point := .running,promise := {awaited.promise with continuation := some h}} with
    running := task :: resumers}

-- co_await callee(...), with Awaiter::await_ready.
def co_await (code : Routines Body Value Error) (w : Coroutines Body Value Error) (h : Handle)
    (f : CoroFrame Body Value Error) (callee : Body) (resumers : List Handle) : Option (Coroutines Body Value Error) := do
  let task := w.created
  let w := w.create callee f.root
  let awaited ← w.frames task
  if awaited.done then w.await_resume code h f task
  else some (w.await_suspend h f task awaited resumers)

-- The coroutine that has control goes on.
def step (code : Routines Body Value Error) (w : Coroutines Body Value Error) : Option (Coroutines Body Value Error) := do
  match w.running with
  | [] => none
  | h :: resumers =>
    let f ← w.frames h
    match f.point with
    | .running =>
      match code.does f.body with
      | .ends (.ok val) => some (w.final_suspend h f (f.promise.return_value val) resumers)
      | .ends (.error current) => some (w.final_suspend h f (f.promise.unhandled_exception current) resumers)
      | .calls callee => w.co_await code h f callee resumers
      | .leaves => some {w.set h {f with point := .suspended} with running := resumers}
    | .co_await task => w.await_resume code h f task
    | _ => none

-- Code outside the coroutines runs, or the body of the one that has control.
def inCode (w : Coroutines Body Value Error) : Bool :=
  match w.running with
  | [] => true
  | h :: _ => (w.frames h).any (·.point == .running)

-- task.handle().resume() at the initial suspension point.
def begin (w : Coroutines Body Value Error) (h : Handle) : Option (Coroutines Body Value Error) := do
  let f ← w.frames h
  match w.inCode,f.point with
  | true,.initial_suspend => some {w.set h {f with point := .running} with running := h :: w.running}
  | _,_ => none

-- resume() on the handle that a suspended coroutine left, with what it waited for.
def resume (code : Routines Body Value Error) (w : Coroutines Body Value Error) (h : Handle) (answer : Value) :
    Option (Coroutines Body Value Error) := do
  let f ← w.frames h
  match w.inCode,f.point with
  | true,.suspended => some {w.set h {f with body := code.resume f.body (.ok answer),point := .running} with
      running := h :: w.running
      tasks := Function.update w.tasks f.root ((w.tasks f.root).map fun task => (task.1,task.2 ++ [answer]))}
  | _,_ => none

-- The frames that go with a frame: at a co_await it holds the temporary Task.
def owned (frames : Handle → Option (CoroFrame Body Value Error)) : Nat → Handle → List Handle
  | 0,_ => []
  | fuel + 1,h =>
    match frames h with
    | none => []
    | some f =>
      match f.point with
      | .co_await task => h :: owned frames fuel task
      | _ => [h]

-- Task::destroy. A frame awaits only frames created after it.
def destroy (w : Coroutines Body Value Error) (h : Handle) : Coroutines Body Value Error :=
  {w with
    frames := fun other => if other ∈ owned w.frames w.created h then none else w.frames other
    tasks := Function.update w.tasks h none}

inductive Label (Body Value : Type) where
  | start (body : Body)
  | begin (h : Handle)
  | resume (h : Handle) (answer : Value)
  | step
  | destroy (h : Handle)
  deriving DecidableEq, Repr

-- An object that calls a coroutine function keeps the Task and may destroy it
-- whenever none of its coroutines has control.
def next (code : Routines Body Value Error) (w : Coroutines Body Value Error) :
    Label Body Value → Option (Coroutines Body Value Error)
  | .start body =>
    some {w.create body w.created with tasks := Function.update w.tasks w.created (some (body,[]))}
  | .begin h => w.begin h
  | .resume h answer => w.resume code h answer
  | .step => w.step code
  | .destroy h =>
    if (w.tasks h).isSome ∧ ∀ other ∈ w.running, (w.frames other).all (·.root != h) then some (w.destroy h) else none

def machine (code : Routines Body Value Error) : Machine (Coroutines Body Value Error) (Label Body Value) where
  start w := w = new
  next := next code

end Coroutines
end NewMuduo
