import NewMuduo.TimerRuns

namespace NewMuduo

-- A thread other than the loop's in TimerQueue::addTimer, with its Timer and
-- the sequence number that one was created with.
inductive AddTimer where
  | idle
  | queueing (timer sequence : Nat)
  | building (timer sequence : Nat)
  deriving DecidableEq, Repr

structure TimerId where
  timer : Nat
  sequence : Nat
  deriving DecidableEq, Repr

-- A TimerQueue with the threads that add timers to it. made has the Timers
-- whose addTimerInLoop has not run, pendingFunctors those of them that it is
-- queued for; returned records every TimerId with the sequence number of the
-- Timer it was returned for.
structure TimerThreads (Tid : Type) where
  queue : TimerQueue
  made : Nat → Option Timer
  pendingFunctors : List Nat
  threads : Tid → AddTimer
  numCreated : Nat
  returned : List (TimerId × Nat)

namespace TimerThreads
variable {Tid : Type}

def memory (s : TimerThreads Tid) (timer : Nat) : Option Timer := (s.made timer).or (s.queue.heap timer)

-- What timer->sequence() reads where there is no Timer is anything.
def sequence (s : TimerThreads Tid) (timer garbage : Nat) : Nat := (s.memory timer).elim garbage (·.sequence)

-- runInLoop calls addTimerInLoop and cancelInLoop at once on the loop thread,
-- and a cancel of another thread comes to the same step when its functor runs.
inductive Label (Tid : Type) where
  | newTimer (t : Tid) (timer : Nat) (u : Timer)
  | queueInLoop (t : Tid)
  | timerId (t : Tid) (garbage : Nat)
  | addTimerInLoop (clock : Int)
  | loop (label : TimerQueue.Label)

def loopAllowed (s : TimerThreads Tid) : TimerQueue.Label → Prop
  | .add timer u _ => s.made timer = none ∧ u.sequence = s.numCreated
  | .cancel timer q => ⟨timer,q⟩ ∈ s.returned.map (·.1)
  | _ => True

instance (s : TimerThreads Tid) (label : TimerQueue.Label) : Decidable (s.loopAllowed label) := by
  cases label <;> (unfold loopAllowed; infer_instance)

def loop (s : TimerThreads Tid) (label : TimerQueue.Label) : TimerThreads Tid :=
  match label with
  | .add timer u _ => {s with
    queue := s.queue.apply label
    numCreated := s.numCreated + 1
    returned := s.returned ++ [(⟨timer,u.sequence⟩,u.sequence)]}
  | _ => {s with queue := s.queue.apply label}

def addTimerInLoop (s : TimerThreads Tid) (timer : Nat) (clock : Int) : TimerThreads Tid :=
  match s.made timer with
  | some u => {s with made := Function.update s.made timer none,queue := s.queue.apply (.add timer u clock)}
  | none => {s with queue := {s.queue with fault := true}}

variable [DecidableEq Tid]

def step (s : TimerThreads Tid) : Label Tid → Option (TimerThreads Tid)
  | .newTimer t timer u =>
    if s.threads t = .idle ∧ s.memory timer = none ∧ timer < UINTPTR_MAX ∧ u.sequence = s.numCreated then
      some {s with
        made := Function.update s.made timer (some u)
        numCreated := s.numCreated + 1
        threads := Function.update s.threads t (.queueing timer u.sequence)}
    else none
  | .queueInLoop t =>
    match s.threads t with
    | .queueing timer q => some {s with
        pendingFunctors := s.pendingFunctors ++ [timer]
        threads := Function.update s.threads t (.building timer q)}
    | _ => none
  | .timerId t garbage =>
    match s.threads t with
    | .building timer q => some {s with
        returned := s.returned ++ [(⟨timer,s.sequence timer garbage⟩,q)]
        threads := Function.update s.threads t .idle}
    | _ => none
  | .addTimerInLoop clock =>
    match s.queue.batch,s.pendingFunctors with
    | none,timer :: rest => some ({s with pendingFunctors := rest}.addTimerInLoop timer clock)
    | _,_ => none
  | .loop label => if s.queue.allowed label = true ∧ s.loopAllowed label then some (s.loop label) else none

def new : TimerThreads Tid := ⟨.new,fun _ => none,[],fun _ => .idle,0,[]⟩

def machine : Machine (TimerThreads Tid) (Label Tid) := ⟨(· = new),step⟩

end TimerThreads
end NewMuduo
