import NewMuduo.MPMCQueue

namespace NewMuduo

-- Where a thread is in run() or runInThread(). user is a caller outside run()
-- and a worker inside task().
inductive PoolStage (T : Type) where
  | user
  | acquireSlot (task : T)
  | enqueue (task : T)
  | releaseItem
  | acquireItem
  | dequeue
  | releaseSlot (task : T)

-- base/LockFreeThreadPool.h after start() and without stop(): running_ is true
-- and threads_ is not empty. assert(ok) is compiled out; dropped keeps the
-- tasks whose enqueue failed and missed counts the dequeues that failed.
structure LockFreeThreadPool (T Tid : Type) where
  queue : MPMCQueue T Tid
  slotsSem : Nat
  itemsSem : Nat
  stage : Tid → PoolStage T
  dropped : List T
  missed : Nat

namespace LockFreeThreadPool
variable {T Tid : Type} [DecidableEq Tid] {s : LockFreeThreadPool T Tid} {k : Nat} {t : Tid}

def move (s : LockFreeThreadPool T Tid) (queue : MPMCQueue T Tid) (t : Tid) (stage : PoolStage T) : LockFreeThreadPool T Tid :=
  {s with queue := queue,stage := Function.update s.stage t stage}

-- What the call of t on the queue has returned, if it has.
def returned (queue : MPMCQueue T Tid) (t : Tid) : Option (Outcome T) :=
  if MPMCQueue.Thread.isIdle (queue.threads t) then queue.outcomes.getLast? else none

def enqueues (s : LockFreeThreadPool T Tid) (queue : MPMCQueue T Tid) (t : Tid) (task : T) : LockFreeThreadPool T Tid :=
  match returned queue t with
  | none => s.move queue t (.enqueue task)
  | some (.enqueued _) => s.move queue t .releaseItem
  | some _ => {s.move queue t .releaseItem with dropped := s.dropped ++ [task]}

-- A worker whose dequeue fails goes back to the semaphore.
def dequeues (s : LockFreeThreadPool T Tid) (queue : MPMCQueue T Tid) (t : Tid) : LockFreeThreadPool T Tid :=
  match returned queue t with
  | none => s.move queue t .dequeue
  | some (.dequeued _ task) => s.move queue t (.releaseSlot task)
  | some _ => {s.move queue t .acquireItem with missed := s.missed + 1}

def step (k : Nat) (movedFrom : T → T) (s : LockFreeThreadPool T Tid) (t : Tid) (spurious : Bool) : LockFreeThreadPool T Tid :=
  match s.stage t with
  | .user => s
  | .acquireSlot task => {s.move (s.queue.put t (.enqLoad task)) t (.enqueue task) with slotsSem := s.slotsSem - 1}
  | .enqueue task => s.enqueues (s.queue.step k movedFrom t spurious) t task
  | .releaseItem => {s.move s.queue t .user with itemsSem := s.itemsSem + 1}
  | .acquireItem => {s.move (s.queue.put t .deqLoad) t .dequeue with itemsSem := s.itemsSem - 1}
  | .dequeue => s.dequeues (s.queue.step k movedFrom t spurious) t
  | .releaseSlot _ => {s.move s.queue t .user with slotsSem := s.slotsSem + 1}

inductive Label (T Tid : Type) where
  | run (t : Tid) (task : T)
  | finish (t : Tid)
  | step (t : Tid) (spurious : Bool)

-- acquire() waits while the count is 0. task() may call run() itself.
def allowed (worker : Tid → Bool) (s : LockFreeThreadPool T Tid) : Label T Tid → Bool
  | .run t _ => match s.stage t with
    | .user => true
    | _ => false
  | .finish t => match s.stage t with
    | .user => worker t
    | _ => false
  | .step t _ => match s.stage t with
    | .user => false
    | .acquireSlot _ => 0 < s.slotsSem
    | .acquireItem => 0 < s.itemsSem
    | _ => true

def apply (k : Nat) (movedFrom : T → T) (s : LockFreeThreadPool T Tid) : Label T Tid → LockFreeThreadPool T Tid
  | .run t task => s.move s.queue t (.acquireSlot task)
  | .finish t => s.move s.queue t .acquireItem
  | .step t spurious => s.step k movedFrom t spurious

def new (k : Nat) (initial : T) (worker : Tid → Bool) : LockFreeThreadPool T Tid :=
  ⟨.new initial,2 ^ k,0,fun t => if worker t then .acquireItem else .user,[],0⟩

def machine (k : Nat) (movedFrom : T → T) (initial : T) (worker : Tid → Bool) :
    Machine (LockFreeThreadPool T Tid) (Label T Tid) :=
  .guarded (· = new k initial worker) (fun s label => s.allowed worker label = true) (apply k movedFrom)

-- The turns a thread can take, with what each has just found.
inductive Turns (k : Nat) (movedFrom : T → T) (s : LockFreeThreadPool T Tid) (t : Tid) : LockFreeThreadPool T Tid → Prop where
  | run (task : T) : s.stage t = .user → Turns k movedFrom s t (s.move s.queue t (.acquireSlot task))
  | finish : s.stage t = .user → Turns k movedFrom s t (s.move s.queue t .acquireItem)
  | acquireSlot : s.stage t = .acquireSlot task → 0 < s.slotsSem → Turns k movedFrom s t
      {s.move (s.queue.put t (.enqLoad task)) t (.enqueue task) with slotsSem := s.slotsSem - 1}
  | enqueue : s.stage t = .enqueue task → s.queue.Moves k movedFrom t after → Turns k movedFrom s t (s.enqueues after t task)
  | releaseItem : s.stage t = .releaseItem → Turns k movedFrom s t
      {s.move s.queue t .user with itemsSem := s.itemsSem + 1}
  | acquireItem : s.stage t = .acquireItem → 0 < s.itemsSem → Turns k movedFrom s t
      {s.move (s.queue.put t .deqLoad) t .dequeue with itemsSem := s.itemsSem - 1}
  | dequeue : s.stage t = .dequeue → s.queue.Moves k movedFrom t after → Turns k movedFrom s t (s.dequeues after t)
  | releaseSlot : s.stage t = .releaseSlot task → Turns k movedFrom s t
      {s.move s.queue t .user with slotsSem := s.slotsSem + 1}

theorem step_turns (movedFrom : T → T) (worker : Tid → Bool) (spurious : Bool)
    (able : s.allowed worker (.step t spurious) = true) : Turns k movedFrom s t (s.step k movedFrom t spurious) := by
  unfold step
  split
  · rename_i here
    simp [allowed,here] at able
  · rename_i here
    exact .acquireSlot here (by simpa [allowed,here] using able)
  · rename_i here
    exact .enqueue here (MPMCQueue.step_moves movedFrom t spurious)
  · rename_i here
    exact .releaseItem here
  · rename_i here
    exact .acquireItem here (by simpa [allowed,here] using able)
  · rename_i here
    exact .dequeue here (MPMCQueue.step_moves movedFrom t spurious)
  · rename_i here
    exact .releaseSlot here

theorem apply_turns (movedFrom : T → T) (worker : Tid → Bool) (label : Label T Tid)
    (able : s.allowed worker label = true) : ∃ t, Turns k movedFrom s t (s.apply k movedFrom label) := by
  cases label with
  | run t task =>
    cases here : s.stage t with
    | user => exact ⟨t,.run task here⟩
    | _ => simp [allowed,here] at able
  | finish t =>
    cases here : s.stage t with
    | user => exact ⟨t,.finish here⟩
    | _ => simp [allowed,here] at able
  | step t spurious => exact ⟨t,step_turns movedFrom worker spurious able⟩

end LockFreeThreadPool
end NewMuduo
