import NewMuduo.Machine
import Mathlib.Logic.Function.Basic
import Mathlib.Algebra.Order.Ring.Int

namespace NewMuduo

-- Times are in nanoseconds, the members of Config in the units of the source.
-- The two factors stand as the thresholds that the code computes from threads_;
-- jitter only says when a wait may time out.
structure DynamicThreadPool.Config where
  minThreads : Nat := 2
  maxThreads : Nat := 128
  initialThreads : Nat := 4
  expandThreshold : Nat → Nat := fun threads => threads * 2
  shrinkThreshold : Nat → Nat := fun threads => threads / 2
  avgWaitThreshold : Int := 50
  idleTimeout : Int := 60
  expandCooldown : Int := 2
  shrinkCooldown : Int := 10

-- A task may be an empty function.
structure DynamicThreadPool.TaskEntry (T : Type) where
  task : Option T
  enqueueTime : Int

-- The workers by the order in which they were spawned, and other threads.
inductive DynamicThreadPool.Agent (Tid : Type) where
  | worker (w : Nat)
  | other (t : Tid)
  deriving DecidableEq, Repr

-- What threads_-- comes from: a return out of workerLoop or tryShrink.
inductive DynamicThreadPool.Decrement where
  | exit
  | shrink (now : Int)
  deriving DecidableEq, Repr

-- Where a worker is in workerLoop, with the local now of tryShrink and with what
-- it has read of threads_ for threads_--. It holds queueMutex_ in holding, woken,
-- shrinking, reading and writing.
inductive DynamicThreadPool.Worker where
  | unspawned
  | starting
  | locking
  | holding
  | waiting
  | waking
  | woken
  | running
  | shrinkClock
  | shrinkThreads (now : Int)
  | shrinkTime (now : Int)
  | shrinkLocking (now : Int)
  | shrinking (now : Int)
  | reading (why : DynamicThreadPool.Decrement)
  | writing (why : DynamicThreadPool.Decrement) (read : Nat)
  | left
  deriving DecidableEq, Repr

-- Where a thread is in submit, from expandThreads on in tryExpand. It holds
-- queueMutex_ in pushing and expanding.
inductive DynamicThreadPool.Submit (T : Type) where
  | idle
  | locking (entry : DynamicThreadPool.TaskEntry T)
  | pushing (entry : DynamicThreadPool.TaskEntry T)
  | notifying
  | expandThreads
  | expandClock
  | expandTime (now : Int)
  | expandLocking (now : Int)
  | expanding (now : Int)

-- Where the constructor is in resize, with what it has read of threads_ for
-- threads_++, which no mutex protects there.
inductive DynamicThreadPool.Constructor where
  | reading (i : Nat)
  | writing (i read : Nat)
  | finished
  deriving DecidableEq, Repr

inductive DynamicThreadPool.StopAll where
  | idle
  | locking
  | notifying
  | polling
  | returned
  deriving DecidableEq, Repr

-- base/DynamicThreadPool.h. threads has the 64 bits of a size_t. spawned counts
-- the std::threads made, outside the calls of submit that are not by a task;
-- wrapped says that threads_-- has read 0; pushed, taken and expanded record
-- what was submitted, what the workers took and when tryExpand spawned.
structure DynamicThreadPool (T Tid : Type) where
  config : DynamicThreadPool.Config
  tasks : List (DynamicThreadPool.TaskEntry T)
  queueMutex : Option (DynamicThreadPool.Agent Tid)
  threads : Nat
  stop : Bool
  lastExpandTime : Int
  lastShrinkTime : Int
  clock : Int
  constructor : DynamicThreadPool.Constructor
  spawned : Nat
  worker : Nat → DynamicThreadPool.Worker
  lastActive : Nat → Int
  submit : DynamicThreadPool.Agent Tid → DynamicThreadPool.Submit T
  stopAll : DynamicThreadPool.StopAll
  outside : Nat
  wrapped : Bool
  pushed : List (DynamicThreadPool.TaskEntry T)
  taken : List (Nat × DynamicThreadPool.TaskEntry T)
  expanded : List Int

namespace DynamicThreadPool
variable {T Tid : Type}

def ms : Int := 1000000
def sec : Int := 1000000000
def word : Nat := 2 ^ 64

-- The asserts of the constructor, on members of type size_t.
def Config.accepted (config : Config) : Prop :=
  config.minThreads ≤ config.initialThreads ∧ config.initialThreads ≤ config.maxThreads ∧ config.maxThreads < word

def incremented (threads : Nat) : Nat := (threads + 1) % word

def decremented (threads : Nat) : Nat := (threads + (word - 1)) % word

def Worker.wake : Worker → Worker
  | .waiting => .waking
  | stage => stage

-- duration_cast<seconds>
def seconds (duration : Int) : Int := duration.tdiv sec

def computeAvgWait (s : DynamicThreadPool T Tid) (now : Int) : Int :=
  if s.tasks.isEmpty then 0
  else ((s.tasks.map fun entry => (now - entry.enqueueTime).tdiv ms).sum).tdiv ((s.tasks.length : Int).bmod (2 ^ 32))

def moves (s : DynamicThreadPool T Tid) (w : Nat) (stage : Worker) : DynamicThreadPool T Tid :=
  {s with worker := Function.update s.worker w stage}

-- std::thread t([this] { workerLoop(); })
def spawn (s : DynamicThreadPool T Tid) : DynamicThreadPool T Tid :=
  {s.moves s.spawned .starting with spawned := s.spawned + 1}

-- One step of resize(initialThreads), which finds threads_ at 0.
def construct (s : DynamicThreadPool T Tid) : Option (DynamicThreadPool T Tid) :=
  match s.constructor with
  | .reading i =>
    if i < s.config.initialThreads then some {s with constructor := .writing i s.threads}
    else some {s with constructor := .finished}
  | .writing i read => some {s.spawn with threads := incremented read,constructor := .reading (i + 1)}
  | .finished => none

-- A worker takes the first task, if there is one, and lets go of queueMutex_.
def take (s : DynamicThreadPool T Tid) (w : Nat) : DynamicThreadPool T Tid :=
  match s.tasks with
  | [] => {s.moves w .shrinkClock with queueMutex := none}
  | entry :: rest => {s.moves w (if entry.task.isSome then .running else .shrinkClock) with
      tasks := rest
      taken := s.taken ++ [(w,entry)]
      queueMutex := none}

-- workerLoop after wait_for.
def woke (s : DynamicThreadPool T Tid) (w : Nat) : DynamicThreadPool T Tid :=
  if s.stop = true ∧ s.tasks.isEmpty then s.moves w (.reading .exit)
  else if s.tasks.isEmpty ∧ s.stop = false ∧ s.config.minThreads < s.threads ∧
      s.config.idleTimeout ≤ seconds (s.clock - s.lastActive w) then s.moves w (.reading .exit)
  else s.take w

-- The checks of tryShrink under queueMutex_.
def canShrink (s : DynamicThreadPool T Tid) (w : Nat) (now : Int) : Prop :=
  s.config.minThreads < s.threads ∧ s.config.shrinkCooldown * sec ≤ now - s.lastShrinkTime ∧
    s.tasks.length ≤ s.config.shrinkThreshold s.threads ∧ s.config.idleTimeout ≤ seconds (now - s.lastActive w)

instance (s : DynamicThreadPool T Tid) (w : Nat) (now : Int) : Decidable (s.canShrink w now) := by
  unfold canShrink
  infer_instance

-- The write of threads_--, the rest of tryShrink or the return, and the release.
def decrement (s : DynamicThreadPool T Tid) (w read : Nat) (why : Decrement) : DynamicThreadPool T Tid :=
  let counted := {s with threads := decremented read,wrapped := s.wrapped || read = 0,queueMutex := none}
  match why with
  | .exit => counted.moves w .left
  | .shrink now => {counted.moves w .locking with lastShrinkTime := now}

def stepWorker (s : DynamicThreadPool T Tid) (w : Nat) : Option (DynamicThreadPool T Tid) :=
  match s.worker w with
  | .starting => some {s.moves w .locking with lastActive := Function.update s.lastActive w s.clock}
  | .locking => if s.queueMutex.isNone then some {s.moves w .holding with queueMutex := some (.worker w)} else none
  | .holding =>
    if s.tasks.isEmpty ∨ s.stop = true then some {s.moves w .waiting with queueMutex := none} else some (s.take w)
  | .waking => if s.queueMutex.isNone then some {s.moves w .woken with queueMutex := some (.worker w)} else none
  | .woken => some (s.woke w)
  | .shrinkClock => some (s.moves w (.shrinkThreads s.clock))
  | .shrinkThreads now => some (s.moves w (if s.threads ≤ s.config.minThreads then .locking else .shrinkTime now))
  | .shrinkTime now =>
    some (s.moves w (if now - s.lastShrinkTime < s.config.shrinkCooldown * sec then .locking else .shrinkLocking now))
  | .shrinkLocking now =>
    if s.queueMutex.isNone then some {s.moves w (.shrinking now) with queueMutex := some (.worker w)} else none
  | .shrinking now =>
    if s.canShrink w now then some (s.moves w (.reading (.shrink now)))
    else some {s.moves w .locking with queueMutex := none}
  | .reading why => some (s.moves w (.writing why s.threads))
  | .writing why read => some (s.decrement w read why)
  | .unspawned | .waiting | .running | .left => none

-- cv_.notify_one() wakes a worker that waits, if there is one.
def notify_one (s : DynamicThreadPool T Tid) (woken : Nat) : Option (DynamicThreadPool T Tid) :=
  if s.worker woken = .waiting then some (s.moves woken .waking)
  else if (List.range s.spawned).all fun w => s.worker w ≠ .waiting then some s
  else none

-- The checks of tryExpand under queueMutex_.
def canExpand (s : DynamicThreadPool T Tid) (now : Int) : Prop :=
  s.threads < s.config.maxThreads ∧ s.config.expandCooldown * sec ≤ now - s.lastExpandTime ∧
    s.config.expandThreshold s.threads < s.tasks.length ∧ s.config.avgWaitThreshold ≤ s.computeAvgWait now

instance (s : DynamicThreadPool T Tid) (now : Int) : Decidable (s.canExpand now) := by
  unfold canExpand
  infer_instance

-- spawnOne() and the rest of tryExpand, all under queueMutex_.
def expand (s : DynamicThreadPool T Tid) (now : Int) : DynamicThreadPool T Tid :=
  {s.spawn with threads := incremented s.threads,lastExpandTime := now,expanded := s.expanded ++ [now]}

def Agent.outside : Agent Tid → Nat
  | .worker _ => 0
  | .other _ => 1

section step
variable [DecidableEq Tid]

def answers (s : DynamicThreadPool T Tid) (a : Agent Tid) (call : Submit T) : DynamicThreadPool T Tid :=
  {s with submit := Function.update s.submit a call}

-- submit returns.
def returns (s : DynamicThreadPool T Tid) (a : Agent Tid) : DynamicThreadPool T Tid := {s.answers a .idle with outside := s.outside - a.outside}

def stepSubmit (s : DynamicThreadPool T Tid) (a : Agent Tid) (woken : Nat) : Option (DynamicThreadPool T Tid) :=
  match s.submit a with
  | .locking entry => if s.queueMutex.isNone then some {s.answers a (.pushing entry) with queueMutex := some a} else none
  | .pushing entry => some {s.answers a .notifying with
      tasks := s.tasks ++ [entry]
      pushed := s.pushed ++ [entry]
      queueMutex := none}
  | .notifying => (s.notify_one woken).map (·.answers a .expandThreads)
  | .expandThreads => some (if s.config.maxThreads ≤ s.threads then s.returns a else s.answers a .expandClock)
  | .expandClock => some (s.answers a (.expandTime s.clock))
  | .expandTime now =>
    some (if now - s.lastExpandTime < s.config.expandCooldown * sec then s.returns a else s.answers a (.expandLocking now))
  | .expandLocking now => if s.queueMutex.isNone then some {s.answers a (.expanding now) with queueMutex := some a} else none
  | .expanding now =>
    if s.canExpand now then some {(s.expand now).returns a with queueMutex := none}
    else some {s.returns a with queueMutex := none}
  | .idle => none

-- stopAll(), which ~DynamicThreadPool calls.
def stepStopAll (s : DynamicThreadPool T Tid) : Option (DynamicThreadPool T Tid) :=
  match s.stopAll with
  | .idle => if s.constructor = .finished ∧ s.outside = 0 then some {s with stopAll := .locking} else none
  | .locking => if s.queueMutex.isNone then some {s with stop := true,stopAll := .notifying} else none
  | .notifying => some {s with worker := fun w => (s.worker w).wake,stopAll := .polling}
  | .polling =>
    if s.queueMutex.isNone then some (if s.threads = 0 then {s with stopAll := .returned} else s) else none
  | .returned => none

inductive Label (T Tid : Type) where
  | tick (duration : Nat)
  | construct
  | worker (w : Nat)
  | finish (w : Nat)
  | wake (w : Nat)
  | submit (a : Agent Tid) (task : Option T)
  | call (a : Agent Tid) (woken : Nat)
  | stopAll

def Submit.isIdle : Submit T → Bool
  | .idle => true
  | _ => false

-- Tasks may call submit; others may until ~DynamicThreadPool begins.
def maySubmit (s : DynamicThreadPool T Tid) (a : Agent Tid) : Bool :=
  s.constructor = .finished && (s.submit a).isIdle && match a with
    | .worker w => s.worker w = .running
    | .other _ => s.stopAll = .idle

def submits (s : DynamicThreadPool T Tid) (a : Agent Tid) (task : Option T) : DynamicThreadPool T Tid :=
  {s.answers a (.locking ⟨task,s.clock⟩) with outside := s.outside + a.outside}

-- wake is the end of wait_for by its timeout or for no reason.
def step (s : DynamicThreadPool T Tid) : Label T Tid → Option (DynamicThreadPool T Tid)
  | .tick duration => some {s with clock := s.clock + duration}
  | .construct => s.construct
  | .worker w => s.stepWorker w
  | .finish w =>
    if s.worker w = .running ∧ (s.submit (.worker w)).isIdle = true then
      some {s.moves w .shrinkClock with lastActive := Function.update s.lastActive w s.clock}
    else none
  | .wake w => if s.worker w = .waiting then some (s.moves w .waking) else none
  | .submit a task => if s.maySubmit a = true then some (s.submits a task) else none
  | .call a woken => s.stepSubmit a woken
  | .stopAll => s.stepStopAll

end step

-- The constructor at the start of resize.
def start (config : Config) (clock : Int) : DynamicThreadPool T Tid where
  config := config
  tasks := []
  queueMutex := none
  threads := 0
  stop := false
  lastExpandTime := clock - config.expandCooldown * sec
  lastShrinkTime := clock - config.shrinkCooldown * sec
  clock := clock
  constructor := .reading 0
  spawned := 0
  worker _ := .unspawned
  lastActive _ := clock
  submit _ := .idle
  stopAll := .idle
  outside := 0
  wrapped := false
  pushed := []
  taken := []
  expanded := []

def machine [DecidableEq Tid] : Machine (DynamicThreadPool T Tid) (Label T Tid) where
  start s := ∃ config clock, config.accepted ∧ s = start config clock
  next := step

end DynamicThreadPool
end NewMuduo
