import NewMuduo.Machine
import Mathlib.Logic.Function.Basic
import Mathlib.Data.List.Range

namespace NewMuduo

inductive ThreadPool.Model where
  | FIXED
  | CACHE
  deriving DecidableEq, Repr

-- The threads that use the pool: its own by their place in threads_, and others.
inductive ThreadPool.Agent (Tid : Type) where
  | worker (w : Nat)
  | other (t : Tid)
  deriving DecidableEq, Repr

structure ThreadPool.ThreadLocalCache (T : Type) where
  tasks : List T
  index : Nat

-- Where a thread of the pool is in runInThread. From predicate to blocking and
-- in filling it holds mutex_; waking and timedOut are on the way back to it.
inductive ThreadPool.Worker where
  | unstarted
  | starting
  | testing
  | locking
  | predicate
  | blocking
  | waiting
  | waking
  | timedOut
  | filling
  | consuming
  | running
  | returned
  deriving DecidableEq, Repr

-- Where a thread is in run(). It holds mutex_ in predicate, blocking and pushing.
inductive ThreadPool.RunCall (T : Type) where
  | idle
  | locking (task : T)
  | predicate (task : T)
  | blocking (task : T)
  | waiting (task : T)
  | waking (task : T)
  | pushing (task : T)

inductive ThreadPool.StopCall where
  | idle
  | notifying
  | joining
  | joined
  deriving DecidableEq, Repr

-- A batch with the worker that took it and batchSize_ at that moment.
structure ThreadPool.Taken (T : Type) where
  worker : Nat
  batchSize : Nat
  tasks : List T

-- base/ThreadPool.h from the end of start() on. threads has for each Thread
-- whether it was started. aborted says that the assert of Thread::start failed;
-- accepted, taken and started record what run() pushed, the batches and the
-- tasks the workers began.
structure ThreadPool (T Tid : Type) where
  model : ThreadPool.Model
  numThreads : Nat
  running : Bool
  threads : List Bool
  queue : List T
  batchSize : Nat
  queueLength : Nat
  activeThreads : Nat
  adjusting : Bool
  lastScaleUpTime : Int
  runCounter : Nat
  mutex : Option (ThreadPool.Agent Tid)
  worker : Nat → ThreadPool.Worker
  cache : Nat → ThreadPool.ThreadLocalCache T
  call : ThreadPool.Agent Tid → ThreadPool.RunCall T
  stop : ThreadPool.StopCall
  aborted : Bool
  accepted : List T
  taken : List (ThreadPool.Taken T)
  started : List (Nat × T)

namespace ThreadPool
variable {T Tid : Type}

def kMinBatchSize : Nat := 4
def kMaxBatchSize : Nat := 64
def kMaxQueueSize : Nat := 10000
def SAMPLE_INTERVAL : Nat := 64
def minThreads : Nat := 4
def maxThreads : Nat := 128
def queueHighWatermark : Nat := 500
def cooldownMs : Int := 1000

def Worker.wake : Worker → Worker
  | .waiting => .waking
  | stage => stage

def RunCall.wake : RunCall T → RunCall T
  | .waiting task => .waking task
  | call => call

def moves (s : ThreadPool T Tid) (w : Nat) (stage : Worker) : ThreadPool T Tid :=
  {s with worker := Function.update s.worker w stage}

-- A worker lets go of mutex_.
def leaves (s : ThreadPool T Tid) (w : Nat) (stage : Worker) : ThreadPool T Tid := {s.moves w stage with mutex := none}

-- notEmpty_.notify_one() wakes a worker that waits, if there is one.
def notify_one (s : ThreadPool T Tid) (woken : Nat) : Option (ThreadPool T Tid) :=
  if s.worker woken = .waiting then some (s.moves woken .waking)
  else if (List.range s.threads.length).all fun w => s.worker w ≠ .waiting then some s
  else none

-- notFull_.notify_all() after a batch.
def notifyNotFull (s : ThreadPool T Tid) : ThreadPool T Tid :=
  if s.queue.length < kMaxQueueSize * 3 / 4 then {s with call := fun a => (s.call a).wake} else s

-- The adaptation of batchSize_ to a length of queue_.
def adapted (batchSize waiting : Nat) : Nat :=
  if batchSize * 2 < waiting then min (batchSize * 2) kMaxBatchSize
  else if waiting < batchSize / 2 then max (batchSize / 2) kMinBatchSize
  else batchSize

def adaptedBatchSize (s : ThreadPool T Tid) : Nat := adapted s.batchSize s.queue.length

-- The end of fillLocalCache, from the adaptation of batchSize_ on.
def takeBatch (s : ThreadPool T Tid) (w woken : Nat) : Option (ThreadPool T Tid) :=
  let batchSize := s.adaptedBatchSize
  let n := min batchSize s.queue.length
  let filled : ThreadPool T Tid := {s with
    batchSize := batchSize
    cache := Function.update s.cache w ⟨s.queue.take n,0⟩
    queue := s.queue.drop n
    taken := s.taken ++ [⟨w,batchSize,s.queue.take n⟩]}
  let notified := if filled.queue.isEmpty then some filled else filled.notify_one woken
  notified.map fun s => s.notifyNotFull.leaves w (if n = 0 then .returned else .consuming)

-- fillLocalCache after its wait. A result of 0 ends the loop of runInThread,
-- -1 goes back to its test.
def fillLocalCache (s : ThreadPool T Tid) (w woken : Nat) : Option (ThreadPool T Tid) :=
  match s.model with
  | .CACHE =>
    if s.queue.isEmpty then
      if minThreads < s.activeThreads then some (s.leaves w .returned)
      else if s.running = false then some (s.leaves w .returned)
      else some (s.leaves w .testing)
    else s.takeBatch w woken
  | .FIXED =>
    if s.queue.isEmpty && !s.running then some (s.leaves w .returned)
    else s.takeBatch w woken

-- Thread::start.
def startThread (s : ThreadPool T Tid) (i : Nat) : ThreadPool T Tid :=
  if s.threads[i]? = some false then {s.moves i .starting with threads := s.threads.set i true}
  else {s with aborted := true}

def scaleUp (s : ThreadPool T Tid) (toAdd : Nat) : ThreadPool T Tid :=
  (List.range toAdd).foldl (fun s i => {s with threads := s.threads ++ [false]}.startThread (i + 1)) s

def maybeAdjust (s : ThreadPool T Tid) (now : Int) : ThreadPool T Tid :=
  if s.model = .FIXED then s
  else if s.adjusting then s
  else
    let active := s.activeThreads
    let scaled :=
      if queueHighWatermark < s.queueLength ∧ active < maxThreads ∧ cooldownMs < now - s.lastScaleUpTime then
        {s.scaleUp (min (maxThreads - active) 2) with lastScaleUpTime := now}
      else s
    {scaled with adjusting := false}

def sampled (s : ThreadPool T Tid) (now : Int) : ThreadPool T Tid :=
  let cnt := s.runCounter
  let counted := {s with runCounter := cnt + 1}
  if cnt % SAMPLE_INTERVAL = 0 then counted.maybeAdjust now else counted

def answers (s : ThreadPool T Tid) [DecidableEq Tid] (a : Agent Tid) (call : RunCall T) : ThreadPool T Tid :=
  {s with call := Function.update s.call a call}

inductive Label (T Tid : Type) where
  | worker (w woken : Nat)
  | finish (w : Nat)
  | timeout (w : Nat)
  | spurious (w : Nat)
  | run (a : Agent Tid) (task : T)
  | call (a : Agent Tid) (now : Int) (woken : Nat)
  | spuriousCall (a : Agent Tid)
  | stop
  | notify_all
  | join

-- A task may call run() itself.
def inUserCode (s : ThreadPool T Tid) : Agent Tid → Bool
  | .worker w => s.worker w = .running
  | .other _ => true

section step
variable [DecidableEq Tid]

-- The rest of run() once the predicate was true.
def push (s : ThreadPool T Tid) (a : Agent Tid) (task : T) (now : Int) (woken : Nat) : Option (ThreadPool T Tid) :=
  let pushed := {s with queue := s.queue ++ [task],accepted := s.accepted ++ [task]}
  (pushed.notify_one woken).map fun s => {(s.sampled now).answers a .idle with mutex := none}

def stepWorker (s : ThreadPool T Tid) (w woken : Nat) : Option (ThreadPool T Tid) :=
  match s.worker w with
  | .starting => some {s.moves w .testing with activeThreads := s.activeThreads + 1}
  | .testing =>
    if s.running = false then some (s.moves w .returned)
    else if (s.cache w).index < (s.cache w).tasks.length then some (s.moves w .consuming)
    else some (s.moves w .locking)
  | .locking | .waking =>
    if s.mutex.isNone then some {s.moves w .predicate with mutex := some (.worker w)} else none
  | .timedOut =>
    if s.mutex.isNone then some {s.moves w .filling with mutex := some (.worker w)} else none
  | .predicate =>
    some (s.moves w (if s.running = false ∨ s.queue.isEmpty = false then .filling else .blocking))
  | .blocking => some (s.leaves w .waiting)
  | .filling => s.fillLocalCache w woken
  | .consuming =>
    match (s.cache w).tasks[(s.cache w).index]? with
    | some task => some {s.moves w .running with
        cache := Function.update s.cache w ⟨(s.cache w).tasks,(s.cache w).index + 1⟩
        started := s.started ++ [(w,task)]}
    | none => some (s.moves w .testing)
  | .unstarted | .waiting | .running | .returned => none

def stepCall (s : ThreadPool T Tid) (a : Agent Tid) (now : Int) (woken : Nat) : Option (ThreadPool T Tid) :=
  match s.call a with
  | .locking task | .waking task =>
    if s.mutex.isNone then some {s.answers a (.predicate task) with mutex := some a} else none
  | .predicate task =>
    some (s.answers a (if s.running = false ∨ s.queue.length < kMaxQueueSize then .pushing task else .blocking task))
  | .blocking task => some {s.answers a (.waiting task) with mutex := none}
  | .pushing task =>
    if s.running = false then some {s.answers a .idle with mutex := none} else s.push a task now woken
  | .idle | .waiting _ => none

-- Without threads run() executes the task itself and leaves the pool alone.
def run (s : ThreadPool T Tid) (a : Agent Tid) (task : T) : ThreadPool T Tid :=
  if s.threads.isEmpty then s else s.answers a (.locking task)

def RunCall.isIdle : RunCall T → Bool
  | .idle => true
  | _ => false

def step (s : ThreadPool T Tid) : Label T Tid → Option (ThreadPool T Tid)
  | .worker w woken => s.stepWorker w woken
  | .finish w =>
    if s.worker w = .running ∧ (s.call (.worker w)).isIdle = true then some (s.moves w .consuming) else none
  | .timeout w => if s.worker w = .waiting ∧ s.model = .CACHE then some (s.moves w .timedOut) else none
  | .spurious w => if s.worker w = .waiting then some (s.moves w .waking) else none
  | .run a task => if s.inUserCode a = true ∧ (s.call a).isIdle = true then some (s.run a task) else none
  | .call a now woken => s.stepCall a now woken
  | .spuriousCall a =>
    match s.call a with
    | .waiting task => some (s.answers a (.waking task))
    | _ => none
  | .stop => if s.stop = .idle ∧ s.running = true then some {s with running := false,stop := .notifying} else none
  | .notify_all =>
    if s.stop = .notifying then some {s with worker := fun w => (s.worker w).wake,stop := .joining} else none
  | .join =>
    if s.stop = .joining ∧ (List.range s.threads.length).all (fun w => s.worker w = .returned) = true then
      some {s with stop := .joined}
    else none

end step

def start (model : Model) (numThreads : Nat) : ThreadPool T Tid where
  model := model
  numThreads := numThreads
  running := true
  threads := List.replicate numThreads true
  queue := []
  batchSize := kMinBatchSize
  queueLength := 0
  activeThreads := 0
  adjusting := false
  lastScaleUpTime := 0
  runCounter := 0
  mutex := none
  worker w := if w < numThreads then .starting else .unstarted
  cache _ := ⟨[],0⟩
  call _ := .idle
  stop := .idle
  aborted := false
  accepted := []
  taken := []
  started := []

-- start() asserts that there are threads.
def machine [DecidableEq Tid] : Machine (ThreadPool T Tid) (Label T Tid) where
  start s := ∃ model numThreads, 0 < numThreads ∧ s = start model numThreads
  next s label := if s.aborted then none else s.step label

end ThreadPool
end NewMuduo
