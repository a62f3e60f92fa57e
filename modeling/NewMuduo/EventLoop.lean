import NewMuduo.Machine
import Mathlib.Logic.Function.Basic
import Mathlib.Data.List.Range

namespace NewMuduo

-- An eventfd in an edge-triggered epoll set.
structure Eventfd where
  counter : Nat
  edge : Bool
  deriving DecidableEq, Repr

-- Where the loop thread is in loop(). handling says whether the handler of
-- wakeupChannel_ is still to run, running whether a functor is, and clearing,
-- in which the local vector of doPendingFunctors goes out of scope, whether the
-- destructors of one are.
inductive Phase where
  | idle
  | check
  | polling
  | handling (wakeup : Bool)
  | resuming
  | entering
  | running (functor : Bool)
  | clearing (functor : Bool)
  deriving DecidableEq, Repr

-- A call of another thread: between its push or its store to quit_ and wakeup().
inductive Caller where
  | idle
  | pushed
  | quitting
  deriving DecidableEq, Repr

-- A functor with its place in the order of all pushes and the number of swaps
-- before its push, neither of which the code records.
structure Queued (F : Type) where
  functor : F
  ticket : Nat
  round : Nat

-- net/Eventloop.cpp: the members the functor queue needs, the local of
-- doPendingFunctors (the functors still to run, and how many have run and are
-- still to be destroyed), what the other threads are doing, and own when the
-- loop thread itself stands between its push and the test of queueInLoop.
structure EventLoop (F Tid : Type) where
  quit : Bool
  callingPendingFunctors : Bool
  pendingFunctors : List (Queued F)
  wakeupFd : Eventfd
  phase : Phase
  functors : List (Queued F)
  spent : Nat
  own : Bool
  callers : Tid → Caller
  pushed : List F
  round : Nat
  ran : List (Queued F × Nat)

namespace EventLoop
variable {F Tid : Type} [DecidableEq Tid] {s : EventLoop F Tid}

inductive Label (F Tid : Type) where
  | push (t : Tid) (cb : F)
  | quit (t : Tid)
  | wakeup (t : Tid)
  | ownPush (cb : F)
  | ownTest
  | ownQuit
  | loop
  | check
  | pollReturns (wakeup : Bool)
  | handleRead
  | handled
  | processPendingResumes
  | swap
  | runFunctor
  | functorReturns
  | functorsDone
  | destroyFunctor
  | functorDestroyed
  | cleared

-- Handlers, resumed coroutines, functors and the destructors of what these hold
-- are the user's code.
def userRuns : Phase → Bool
  | .handling _ | .resuming | .running true | .clearing true => true
  | _ => false

def push_back (s : EventLoop F Tid) (cb : F) : EventLoop F Tid :=
  {s with
    pendingFunctors := s.pendingFunctors ++ [⟨cb,s.pushed.length,s.round⟩]
    pushed := s.pushed ++ [cb]}

def wakeup (s : EventLoop F Tid) : EventLoop F Tid :=
  {s with wakeupFd := ⟨s.wakeupFd.counter + 1,true⟩}

-- runInLoop of another thread is queueInLoop; of the loop thread it is part of
-- the code that calls it. poll also returns for other events and timeouts.
def allowed (s : EventLoop F Tid) : Label F Tid → Prop
  | .push t _ | .quit t => s.callers t = .idle
  | .wakeup t => s.callers t ≠ .idle
  | .ownPush _ | .ownQuit => userRuns s.phase = true ∧ s.own = false
  | .ownTest => s.own = true
  | .loop => s.phase = .idle
  | .check => s.phase = .check
  | .pollReturns wakeup => s.phase = .polling ∧ (wakeup = true → s.wakeupFd.edge = true ∧ 0 < s.wakeupFd.counter)
  | .handleRead => s.phase = .handling true ∧ s.own = false
  | .handled => s.phase = .handling false ∧ s.own = false
  | .processPendingResumes => s.phase = .resuming ∧ s.own = false
  | .swap => s.phase = .entering
  | .runFunctor => s.phase = .running false ∧ s.functors ≠ []
  | .functorReturns => s.phase = .running true ∧ s.own = false
  | .functorsDone => s.phase = .running false ∧ s.functors = []
  | .destroyFunctor => s.phase = .clearing false ∧ 0 < s.spent
  | .functorDestroyed => s.phase = .clearing true ∧ s.own = false
  | .cleared => s.phase = .clearing false ∧ s.spent = 0

instance (s : EventLoop F Tid) (label : Label F Tid) : Decidable (s.allowed label) := by
  cases label <;> (unfold allowed; infer_instance)

def apply (s : EventLoop F Tid) : Label F Tid → EventLoop F Tid
  | .push t cb => {s.push_back cb with callers := Function.update s.callers t .pushed}
  | .quit t => {s with quit := true,callers := Function.update s.callers t .quitting}
  | .wakeup t => {s.wakeup with callers := Function.update s.callers t .idle}
  | .ownPush cb => {s.push_back cb with own := true}
  | .ownTest => if s.callingPendingFunctors then {s.wakeup with own := false} else {s with own := false}
  | .ownQuit => {s with quit := true}
  | .loop => {s with quit := false,phase := .check}
  | .check => {s with phase := if s.quit then .idle else .polling}
  | .pollReturns wakeup => {s with
      phase := .handling wakeup
      wakeupFd := {s.wakeupFd with edge := s.wakeupFd.edge && !wakeup}}
  | .handleRead => {s with phase := .handling false,wakeupFd := {s.wakeupFd with counter := 0}}
  | .handled => {s with phase := .resuming}
  | .processPendingResumes => {s with phase := .entering,callingPendingFunctors := true}
  | .swap => {s with
      phase := .running false
      functors := s.pendingFunctors
      pendingFunctors := s.functors
      round := s.round + 1}
  | .runFunctor => {s with
      phase := .running true
      functors := s.functors.tail
      spent := s.spent + 1
      ran := s.ran ++ s.functors.head?.toList.map (·,s.round)}
  | .functorReturns => {s with phase := .running false}
  | .functorsDone => {s with phase := .clearing false,callingPendingFunctors := false}
  | .destroyFunctor => {s with phase := .clearing true,spent := s.spent - 1}
  | .functorDestroyed => {s with phase := .clearing false}
  | .cleared => {s with phase := .check}

def new : EventLoop F Tid :=
  ⟨false,false,[],⟨0,false⟩,.idle,[],0,false,fun _ => .idle,[],0,[]⟩

def machine : Machine (EventLoop F Tid) (Label F Tid) := .guarded (· = new) allowed apply

-- The test of queueInLoop touches nothing but the eventfd.
theorem apply_ownTest (s : EventLoop F Tid) : ∃ wakeupFd,
    s.apply .ownTest = {s with wakeupFd := wakeupFd,own := false} ∧
      (wakeupFd = s.wakeupFd ∨ wakeupFd = ⟨s.wakeupFd.counter + 1,true⟩) := by
  unfold apply
  dsimp only
  split
  · exact ⟨_,rfl,.inr rfl⟩
  · exact ⟨s.wakeupFd,rfl,.inl rfl⟩

-- Only loop() itself takes a request to quit back.
theorem apply_quit (requested : s.quit = true) (label : Label F Tid) (running : label ≠ .loop) :
    (s.apply label).quit = true := by
  cases label with
  | loop => exact absurd rfl running
  | quit t => rfl
  | ownQuit => rfl
  | ownTest =>
    obtain ⟨_,same,_⟩ := s.apply_ownTest
    rw [same]
    exact requested
  | _ => exact requested

end EventLoop
end NewMuduo
