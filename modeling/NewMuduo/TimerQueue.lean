import NewMuduo.Machine
import NewMuduo.OrderedSet
import Mathlib.Data.Finset.Basic
import Mathlib.Data.Prod.Lex
import Mathlib.Algebra.Order.Ring.Int

namespace NewMuduo

-- net/Timer.h, with times in microseconds: interval is what addTime adds, and
-- repeats whether the interval given was positive.
structure Timer where
  expiration : Int
  interval : Nat
  repeats : Bool
  sequence : Nat
  deriving DecidableEq, Repr

def Timer.restart (t : Timer) : Timer :=
  {t with expiration := if t.repeats then t.expiration + t.interval else 0}

-- TimerQueue::Entry, a Timer* being its address.
structure Entry where
  expiration : Int
  timer : Nat
  deriving Repr

-- The order of std::pair.
instance : LinearOrder Entry :=
  LinearOrder.lift' (fun e : Entry => toLex (e.expiration,e.timer)) fun a b same => by
    cases a
    cases b
    simpa using same

def UINTPTR_MAX : Nat := 2 ^ 64 - 1

structure Timespec where
  tv_sec : Int
  tv_nsec : Int
  deriving DecidableEq, Repr

-- Expirations that read has not fetched, and the clock at timerfd_settime with
-- the time set.
structure Timerfd where
  ticks : Nat
  armed : Option (Int × Timespec)
  deriving DecidableEq, Repr

-- A running handleRead: what of expired has begun to run, what has still to,
-- and whether a callback is running.
structure Batch where
  done : List Entry
  left : List Entry
  running : Bool

def Batch.expired (b : Batch) : List Entry := b.done ++ b.left

-- net/TimerQueue.h over the heap of its Timers. fault says that a Timer was
-- used or deleted that did not exist; the rest records the sequence numbers
-- given out, run and deleted, and the ids cancelled since the last handleRead
-- began.
structure TimerQueue where
  timers : OrderedSet Entry
  activeTimers : Finset (Nat × Nat)
  callingExpiredTimers : Bool
  cancelingTimers : Finset (Nat × Nat)
  timerfd : Timerfd
  heap : Nat → Option Timer
  batch : Option Batch
  fault : Bool
  used : List Nat
  runs : List Nat
  cancels : List (Nat × Nat)
  deleted : List Nat

namespace TimerQueue
variable {s : TimerQueue}

def deref (s : TimerQueue) (timer : Nat) (use : Timer → TimerQueue) : TimerQueue :=
  match s.heap timer with
  | some t => use t
  | none => {s with fault := true}

def delete (s : TimerQueue) (timer : Nat) : TimerQueue :=
  s.deref timer fun t => {s with
    heap := Function.update s.heap timer none
    deleted := s.deleted ++ [t.sequence]}

def howMuchTimeFromNow (clock expiration : Int) : Timespec :=
  let microseconds := expiration - clock
  let microseconds := if microseconds < 100 then 100 else microseconds
  ⟨microseconds.tdiv 1000000,microseconds.tmod 1000000 * 1000⟩

-- The call fails on a time that is not normal, a zero one disarms, and the
-- expirations not yet read are dropped.
def timerfd_settime (timerfd : Timerfd) (clock : Int) (value : Timespec) : Timerfd :=
  if value.tv_sec < 0 ∨ value.tv_nsec < 0 ∨ 1000000000 ≤ value.tv_nsec then timerfd
  else if value.tv_sec = 0 ∧ value.tv_nsec = 0 then ⟨0,none⟩
  else ⟨0,some (clock,value)⟩

def resetTimerfd (s : TimerQueue) (clock expiration : Int) : TimerQueue :=
  {s with timerfd := timerfd_settime s.timerfd clock (howMuchTimeFromNow clock expiration)}

def readTimerfd (s : TimerQueue) : TimerQueue := {s with timerfd := {s.timerfd with ticks := 0}}

def isEarliest (s : TimerQueue) (expiration : Int) : Bool :=
  match s.timers.first with
  | none => true
  | some front => expiration < front.expiration

def insert (s : TimerQueue) (timer : Nat) (t : Timer) : TimerQueue :=
  {s with
    timers := s.timers.insert ⟨t.expiration,timer⟩
    activeTimers := Insert.insert (timer,t.sequence) s.activeTimers}

def addTimerInLoop (s : TimerQueue) (clock : Int) (timer : Nat) : TimerQueue :=
  s.deref timer fun t =>
    if s.isEarliest t.expiration then (s.insert timer t).resetTimerfd clock t.expiration else s.insert timer t

def cancelInLoop (s : TimerQueue) (timer sequence : Nat) : TimerQueue :=
  if (timer,sequence) ∈ s.activeTimers then
    s.deref timer fun t => {s with
      timers := s.timers.erase ⟨t.expiration,timer⟩
      activeTimers := s.activeTimers.erase (timer,sequence)}.delete timer
  else if s.callingExpiredTimers then
    {s with cancelingTimers := Insert.insert (timer,sequence) s.cancelingTimers}
  else s

-- The body of the second loop of getExpired.
def deactivate (s : TimerQueue) (e : Entry) : TimerQueue :=
  s.deref e.timer fun t => {s with activeTimers := s.activeTimers.erase (e.timer,t.sequence)}

def getExpired (s : TimerQueue) (now : Int) : TimerQueue × List Entry :=
  let last : Entry := ⟨now,UINTPTR_MAX⟩
  let expired := s.timers.below last
  (expired.foldl deactivate {s with timers := s.timers.above last},expired)

-- The body of the loop of reset.
def resetOne (s : TimerQueue) (cur : Entry) : TimerQueue :=
  s.deref cur.timer fun t =>
    if t.repeats = true ∧ (cur.timer,t.sequence) ∉ s.cancelingTimers then
      {s with heap := Function.update s.heap cur.timer (some t.restart)}.insert cur.timer t.restart
    else s.delete cur.timer

def rearm (s : TimerQueue) (clock : Int) : TimerQueue :=
  match s.timers.first with
  | none => s
  | some front => s.deref front.timer fun t =>
    if 0 < t.expiration then s.resetTimerfd clock t.expiration else s

def reset (s : TimerQueue) (expired : List Entry) (clock : Int) : TimerQueue :=
  (expired.foldl resetOne s).rearm clock

-- add is addTimer of a new Timer followed by addTimerInLoop; handleRead is cut
-- at the callbacks it runs.
inductive Label where
  | add (timer : Nat) (t : Timer) (clock : Int)
  | cancel (timer sequence : Nat)
  | handleRead (now : Int)
  | run
  | returns
  | reset (clock : Int)
  | expire
  deriving DecidableEq, Repr

def done (s : TimerQueue) : List Entry := s.batch.elim [] (·.done)

def expired (s : TimerQueue) : List Entry := s.batch.elim [] (·.expired)

-- Code that may add and cancel: a callback, or the loop outside handleRead.
def userRuns (s : TimerQueue) : Bool := s.batch.all (·.running)

def allowed (s : TimerQueue) : Label → Bool
  | .add timer t _ => s.userRuns && (s.heap timer).isNone && t.sequence ∉ s.used && timer < UINTPTR_MAX
  | .cancel _ _ => s.userRuns
  | .handleRead _ => s.batch.isNone
  | .run => s.batch.any fun b => !b.running && !b.left.isEmpty
  | .returns => s.batch.any (·.running)
  | .reset _ => s.batch.any fun b => !b.running && b.left.isEmpty
  | .expire => s.timerfd.armed.isSome

def apply (s : TimerQueue) : Label → TimerQueue
  | .add timer t clock => {s with
      heap := Function.update s.heap timer (some t)
      used := s.used ++ [t.sequence]}.addTimerInLoop clock timer
  | .cancel timer sequence => {s with cancels := s.cancels ++ [(timer,sequence)]}.cancelInLoop timer sequence
  | .handleRead now =>
    let (s,expired) := s.readTimerfd.getExpired now
    {s with
      callingExpiredTimers := true
      cancelingTimers := ∅
      cancels := []
      batch := some ⟨[],expired,false⟩}
  | .run =>
    match s.batch with
    | some ⟨done,cur :: rest,_⟩ => s.deref cur.timer fun t => {s with
        runs := s.runs ++ [t.sequence]
        batch := some ⟨done ++ [cur],rest,true⟩}
    | _ => s
  | .returns => {s with batch := s.batch.map fun b => {b with running := false}}
  | .reset clock => {s with callingExpiredTimers := false,batch := none}.reset s.expired clock
  | .expire => {s with timerfd := ⟨s.timerfd.ticks + 1,none⟩}

def new : TimerQueue := ⟨∅,∅,false,∅,⟨0,none⟩,fun _ => none,none,false,[],[],[],[]⟩

def machine : Machine TimerQueue Label := .guarded (· = new) (fun s label => s.allowed label = true) apply

end TimerQueue
end NewMuduo
