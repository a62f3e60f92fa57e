import NewMuduo.LockFreeThreadPool
import NewMuduo.MPMCPositions
import NewMuduo.Tally

namespace NewMuduo.LockFreeThreadPool
variable {T Tid : Type} {s after : LockFreeThreadPool T Tid} {queue : MPMCQueue T Tid} {k : Nat} {t u : Tid}
  {task : T} {movedFrom : T → T}

-- Where a thread is in the pool and in the queue.
def place (s : LockFreeThreadPool T Tid) (t : Tid) : PoolStage T × Thread T := (s.stage t,s.queue.threads t)

-- A slot acquired for which no position is won yet, or still to be released.
def holdsSlot : PoolStage T × Thread T → Bool
  | (.enqueue _,.enqLoad _) | (.enqueue _,.enqSequence _ _) | (.enqueue _,.enqClaim _ _) => true
  | (.dequeue,.deqRead _) | (.dequeue,.deqRelease _ _) | (.releaseSlot _,_) => true
  | _ => false

def holdsItem : PoolStage T × Thread T → Bool
  | (.dequeue,.deqLoad) | (.dequeue,.deqSequence _) | (.dequeue,.deqClaim _) => true
  | (.enqueue _,.enqWrite _ _) | (.enqueue _,.enqPublish _) | (.releaseItem,_) => true
  | _ => false

-- A thread is in a call of the queue exactly while the pool has it there.
def Fits : PoolStage T × Thread T → Prop
  | (.enqueue _,.enqLoad _) | (.enqueue _,.enqSequence _ _) | (.enqueue _,.enqClaim _ _) => True
  | (.enqueue _,.enqWrite _ _) | (.enqueue _,.enqPublish _) => True
  | (.dequeue,.deqLoad) | (.dequeue,.deqSequence _) | (.dequeue,.deqClaim _) => True
  | (.dequeue,.deqRead _) | (.dequeue,.deqRelease _ _) => True
  | (.enqueue _,_) | (.dequeue,_) => False
  | (_,.idle) => True
  | _ => False

structure Sound (k : Nat) (s : LockFreeThreadPool T Tid) : Prop where
  placed : MPMCQueue.Placed k s.queue
  fits : ∀ t, Fits (s.place t)
  slots : Conserved holdsSlot s.place (s.slotsSem + s.queue.enqueuePos + s.dropped.length) (2 ^ k + s.queue.dequeuePos)
  items : Conserved holdsItem s.place (s.itemsSem + s.queue.dequeuePos + s.missed) (s.queue.enqueuePos + s.dropped.length)

variable [DecidableEq Tid]

theorem place_move (others : queue.threads = Function.update s.queue.threads t (queue.threads t)) (stage : PoolStage T) :
    (s.move queue t stage).place = Function.update s.place t (stage,queue.threads t) := by
  funext u
  unfold place move
  dsimp only
  rw [others]
  by_cases same : u = t
  · simp [same]
  · simp [same]

-- One thread goes on: what it has in hand goes with it.
theorem Sound.turn (old : Sound k s) (t : Tid) (placed : MPMCQueue.Placed k after.queue) {next : PoolStage T × Thread T}
    (place : after.place = Function.update s.place t next) (fits : Fits next)
    (slots : after.slotsSem + after.queue.enqueuePos + after.dropped.length + (holdsSlot next).toNat + s.queue.dequeuePos =
      s.slotsSem + s.queue.enqueuePos + s.dropped.length + (holdsSlot (s.place t)).toNat + after.queue.dequeuePos)
    (items : after.itemsSem + after.queue.dequeuePos + after.missed + (holdsItem next).toNat +
        s.queue.enqueuePos + s.dropped.length =
      s.itemsSem + s.queue.dequeuePos + s.missed + (holdsItem (s.place t)).toNat +
        after.queue.enqueuePos + after.dropped.length) : Sound k after := by
  refine ⟨placed,fun u => ?_,?_,?_⟩
  · rw [place]
    by_cases same : u = t
    · rwa [same,Function.update_self]
    · rw [Function.update_of_ne same]
      exact old.fits u
  · rw [place]
    exact old.slots.update t next (by omega)
  · rw [place]
    exact old.items.update t next (by omega)

omit [DecidableEq Tid] in
theorem enqueue_busy (fits : Fits (.enqueue task,queue.threads t)) : returned queue t = none := by
  unfold returned
  cases here : queue.threads t <;> rw [here] at fits <;> first | exact fits.elim | rfl

omit [DecidableEq Tid] in
theorem dequeue_busy (fits : Fits ((.dequeue : PoolStage T),queue.threads t)) : returned queue t = none := by
  unfold returned
  cases here : queue.threads t <;> rw [here] at fits <;> first | exact fits.elim | rfl

omit [DecidableEq Tid] in
theorem returned_last {outcome : Outcome T} (idle : queue.threads t = .idle)
    (last : queue.outcomes = s.queue.outcomes ++ [outcome]) : returned queue t = some outcome := by
  simp [returned,idle,last,MPMCQueue.Thread.isIdle]

-- A step inside the queue that leaves the thread where it was in its call: only
-- winning the position takes something from its hands and gives it something.
theorem Sound.on_queue (old : Sound k s) {stage : PoolStage T} (here : s.stage t = stage) (placed : MPMCQueue.Placed k queue)
    (others : queue.threads = Function.update s.queue.threads t (queue.threads t)) (fits : Fits (stage,queue.threads t))
    (slots : queue.enqueuePos + (holdsSlot (stage,queue.threads t)).toNat + s.queue.dequeuePos =
      s.queue.enqueuePos + (holdsSlot (stage,s.queue.threads t)).toNat + queue.dequeuePos)
    (items : queue.dequeuePos + (holdsItem (stage,queue.threads t)).toNat + s.queue.enqueuePos =
      s.queue.dequeuePos + (holdsItem (stage,s.queue.threads t)).toNat + queue.enqueuePos) :
    Sound k (s.move queue t stage) := by
  have was : s.place t = (stage,s.queue.threads t) := congrArg (·,_) here
  refine old.turn t placed (place_move others _) fits ?_ ?_
  · rw [was]
    simp only [move]
    omega
  · rw [was]
    simp only [move]
    omega

-- A step of enqueue that does not end the call.
theorem Sound.enqueue_on (old : Sound k s) (here : s.stage t = .enqueue task) (placed : MPMCQueue.Placed k queue)
    (others : queue.threads = Function.update s.queue.threads t (queue.threads t))
    (fits : Fits (.enqueue task,queue.threads t))
    (slots : queue.enqueuePos + (holdsSlot (.enqueue task,queue.threads t)).toNat + s.queue.dequeuePos =
      s.queue.enqueuePos + (holdsSlot (.enqueue task,s.queue.threads t)).toNat + queue.dequeuePos)
    (items : queue.dequeuePos + (holdsItem (.enqueue task,queue.threads t)).toNat + s.queue.enqueuePos =
      s.queue.dequeuePos + (holdsItem (.enqueue task,s.queue.threads t)).toNat + queue.enqueuePos) :
    Sound k (s.enqueues queue t task) := by
  have going : s.enqueues queue t task = s.move queue t (.enqueue task) := by
    unfold LockFreeThreadPool.enqueues
    rw [enqueue_busy fits]
  rw [going]
  exact old.on_queue here placed others fits slots items

theorem Sound.enqueues (old : Sound k s) (large : 0 < k) (here : s.stage t = .enqueue task)
    (moved : s.queue.Moves k movedFrom t queue) : Sound k (s.enqueues queue t task) := by
  have was : s.place t = (.enqueue task,s.queue.threads t) := congrArg (·,_) here
  have fits := old.fits t
  rw [was] at fits
  have placed := old.placed.moves large moved
  have others := moved.threads
  have on := old.enqueue_on here placed others
  cases moved with
  | rest => exact on fits rfl rfl
  | enqLoad now | enqFree now | enqBehind now | enqRetry now =>
    refine on (by simp [MPMCQueue.put,Fits]) ?_ ?_
    · simp [MPMCQueue.put,holdsSlot,now]
    · simp [MPMCQueue.put,holdsItem,now]
  | enqClaim now =>
    refine on (by simp [MPMCQueue.put,Fits]) ?_ ?_
    · simp [MPMCQueue.put,holdsSlot,now]
    · simp [MPMCQueue.put,holdsItem,now]
      omega
  | enqWrite now =>
    refine on (by simp [MPMCQueue.put,Fits]) ?_ ?_
    · simp [MPMCQueue.put,holdsSlot,now]
    · simp [MPMCQueue.put,holdsItem,now]
  | enqFull now =>
    have idle := Function.update_self t Thread.idle s.queue.threads
    unfold LockFreeThreadPool.enqueues
    rw [returned_last (s := s) idle rfl]
    refine old.turn t placed (place_move others _) ?_ ?_ ?_
    · simp [MPMCQueue.returns,MPMCQueue.put,Fits]
    · simp [move,MPMCQueue.returns,MPMCQueue.put,was,now,holdsSlot]
      omega
    · simp [move,MPMCQueue.returns,MPMCQueue.put,was,now,holdsItem]
      omega
  | enqPublish now =>
    have idle := Function.update_self t Thread.idle s.queue.threads
    unfold LockFreeThreadPool.enqueues
    rw [returned_last (s := s) idle rfl]
    refine old.turn t placed (place_move others _) ?_ ?_ ?_
    · simp [MPMCQueue.returns,MPMCQueue.put,Fits]
    · simp [move,MPMCQueue.returns,MPMCQueue.put,was,now,holdsSlot]
    · simp [move,MPMCQueue.returns,MPMCQueue.put,was,now,holdsItem]
  | callEnqueue _ now | callDequeue now | deqLoad now | deqReady now | deqEmpty now | deqBehind now | deqClaim now
  | deqRetry now | deqRead now | deqRelease now =>
    rw [now] at fits
    exact fits.elim

theorem Sound.dequeue_on (old : Sound k s) (here : s.stage t = .dequeue) (placed : MPMCQueue.Placed k queue)
    (others : queue.threads = Function.update s.queue.threads t (queue.threads t))
    (fits : Fits ((.dequeue : PoolStage T),queue.threads t))
    (slots : queue.enqueuePos + (holdsSlot ((.dequeue : PoolStage T),queue.threads t)).toNat + s.queue.dequeuePos =
      s.queue.enqueuePos + (holdsSlot ((.dequeue : PoolStage T),s.queue.threads t)).toNat + queue.dequeuePos)
    (items : queue.dequeuePos + (holdsItem ((.dequeue : PoolStage T),queue.threads t)).toNat + s.queue.enqueuePos =
      s.queue.dequeuePos + (holdsItem ((.dequeue : PoolStage T),s.queue.threads t)).toNat + queue.enqueuePos) :
    Sound k (s.dequeues queue t) := by
  have going : s.dequeues queue t = s.move queue t .dequeue := by
    unfold LockFreeThreadPool.dequeues
    rw [dequeue_busy fits]
  rw [going]
  exact old.on_queue here placed others fits slots items

theorem Sound.dequeues (old : Sound k s) (large : 0 < k) (here : s.stage t = .dequeue)
    (moved : s.queue.Moves k movedFrom t queue) : Sound k (s.dequeues queue t) := by
  have was : s.place t = (.dequeue,s.queue.threads t) := congrArg (·,_) here
  have fits := old.fits t
  rw [was] at fits
  have placed := old.placed.moves large moved
  have others := moved.threads
  have on := old.dequeue_on here placed others
  cases moved with
  | rest => exact on fits rfl rfl
  | deqLoad now | deqReady now | deqBehind now | deqRetry now =>
    refine on (by simp [MPMCQueue.put,Fits]) ?_ ?_
    · simp [MPMCQueue.put,holdsSlot,now]
    · simp [MPMCQueue.put,holdsItem,now]
  | deqClaim now =>
    refine on (by simp [MPMCQueue.put,Fits]) ?_ ?_
    · simp [MPMCQueue.put,holdsSlot,now]
      omega
    · simp [MPMCQueue.put,holdsItem,now]
  | deqRead now =>
    refine on (by simp [MPMCQueue.put,Fits]) ?_ ?_
    · simp [MPMCQueue.put,holdsSlot,now]
    · simp [MPMCQueue.put,holdsItem,now]
  | deqEmpty now =>
    have idle := Function.update_self t Thread.idle s.queue.threads
    unfold LockFreeThreadPool.dequeues
    rw [returned_last (s := s) idle rfl]
    refine old.turn t placed (place_move others _) ?_ ?_ ?_
    · simp [MPMCQueue.returns,MPMCQueue.put,Fits]
    · simp [move,MPMCQueue.returns,MPMCQueue.put,was,now,holdsSlot]
    · simp [move,MPMCQueue.returns,MPMCQueue.put,was,now,holdsItem]
      omega
  | deqRelease now =>
    have idle := Function.update_self t Thread.idle s.queue.threads
    unfold LockFreeThreadPool.dequeues
    rw [returned_last (s := s) idle rfl]
    refine old.turn t placed (place_move others _) ?_ ?_ ?_
    · simp [MPMCQueue.returns,MPMCQueue.put,Fits]
    · simp [move,MPMCQueue.returns,MPMCQueue.put,was,now,holdsSlot]
    · simp [move,MPMCQueue.returns,MPMCQueue.put,was,now,holdsItem]
  | callEnqueue _ now | callDequeue now | enqLoad now | enqFree now | enqFull now | enqBehind now | enqClaim now
  | enqRetry now | enqWrite now | enqPublish now =>
    rw [now] at fits
    exact fits.elim

omit [DecidableEq Tid] in
theorem Sound.idle (old : Sound k s) {stage : PoolStage T} (here : s.stage t = stage)
    (enqueue : ∀ task, stage ≠ .enqueue task) (dequeue : stage ≠ .dequeue) : s.queue.threads t = .idle := by
  have fits := old.fits t
  unfold LockFreeThreadPool.place at fits
  rw [here] at fits
  cases thread : s.queue.threads t <;> rw [thread] at fits <;> first
    | rfl
    | (cases stage <;> first | exact fits.elim | exact absurd rfl (enqueue _) | exact absurd rfl dequeue)

-- A turn outside the queue: the thread trades what it holds with the semaphores.
theorem Sound.off_queue (old : Sound k s) {stage : PoolStage T} {slotsSem itemsSem : Nat} (idle : s.queue.threads t = .idle)
    (fits : Fits (stage,(.idle : Thread T)))
    (slots : slotsSem + (holdsSlot (stage,(.idle : Thread T))).toNat = s.slotsSem + (holdsSlot (s.stage t,(.idle : Thread T))).toNat)
    (items : itemsSem + (holdsItem (stage,(.idle : Thread T))).toNat = s.itemsSem + (holdsItem (s.stage t,(.idle : Thread T))).toNat) :
    Sound k {s.move s.queue t stage with slotsSem := slotsSem,itemsSem := itemsSem} := by
  have same : s.queue.threads = Function.update s.queue.threads t (s.queue.threads t) :=
    (Function.update_eq_self t s.queue.threads).symm
  have was : s.place t = (s.stage t,.idle) := congrArg (s.stage t,·) idle
  have placed := place_move same stage
  rw [idle] at placed
  refine old.turn t old.placed placed fits ?_ ?_
  · rw [was]
    simp only [move]
    omega
  · rw [was]
    simp only [move]
    omega

theorem Sound.turns (old : Sound k s) (large : 0 < k) (turned : Turns k movedFrom s t after) : Sound k after := by
  cases turned with
  | enqueue here moved => exact old.enqueues large here moved
  | dequeue here moved => exact old.dequeues large here moved
  | run task here =>
    refine old.off_queue (old.idle here (by simp) (by simp)) trivial ?_ ?_
    · simp [here,holdsSlot]
    · simp [here,holdsItem]
  | finish here =>
    refine old.off_queue (old.idle here (by simp) (by simp)) trivial ?_ ?_
    · simp [here,holdsSlot]
    · simp [here,holdsItem]
  | releaseItem here =>
    refine old.off_queue (old.idle here (by simp) (by simp)) trivial ?_ ?_
    · simp [move,here,holdsSlot]
    · simp [here,holdsItem]
  | releaseSlot here =>
    refine old.off_queue (old.idle here (by simp) (by simp)) trivial ?_ ?_
    · simp [here,holdsSlot]
    · simp [move,here,holdsItem]
  | acquireSlot here free =>
    have idle := old.idle here (by simp) (by simp)
    rename_i task
    have moved : s.queue.Moves k movedFrom t (s.queue.put t (.enqLoad task)) := .callEnqueue task idle
    refine old.turn t (old.placed.moves large moved) (place_move moved.threads _) ?_ ?_ ?_
    · simp [MPMCQueue.put,Fits]
    · simp [move,place,MPMCQueue.put,here,idle,holdsSlot]
      omega
    · simp [move,place,MPMCQueue.put,here,idle,holdsItem]
  | acquireItem here some =>
    have idle := old.idle here (by simp) (by simp)
    have moved : s.queue.Moves k movedFrom t (s.queue.put t .deqLoad) := .callDequeue idle
    refine old.turn t (old.placed.moves large moved) (place_move moved.threads _) ?_ ?_ ?_
    · simp [MPMCQueue.put,Fits]
    · simp [move,place,MPMCQueue.put,here,idle,holdsSlot]
    · simp [move,place,MPMCQueue.put,here,idle,holdsItem]
      omega

omit [DecidableEq Tid] in
theorem sound_new (k : Nat) (initial : T) (worker : Tid → Bool) : Sound k (new k initial worker) := by
  refine ⟨.start k initial,fun t => ?_,.start fun t => ?_,.start fun t => ?_⟩
  all_goals
    unfold place new
    dsimp only
    cases worker t
  · exact trivial
  · exact trivial
  · rfl
  · rfl
  · rfl
  · rfl

omit [DecidableEq Tid] in
theorem Sound.enqueueing (old : Sound k s) (here : s.queue.threads t = .enqSequence item pos) :
    ∃ task, s.place t = (.enqueue task,.enqSequence item pos) := by
  have fits := old.fits t
  unfold LockFreeThreadPool.place at fits ⊢
  rw [here] at fits ⊢
  cases stage : s.stage t <;> rw [stage] at fits <;> first | exact fits.elim | exact ⟨_,rfl⟩

omit [DecidableEq Tid] in
theorem Sound.dequeueing (old : Sound k s) (here : s.queue.threads t = .deqSequence pos) :
    s.place t = (.dequeue,.deqSequence pos) := by
  have fits := old.fits t
  unfold LockFreeThreadPool.place at fits ⊢
  rw [here] at fits ⊢
  cases stage : s.stage t <;> rw [stage] at fits <;> exact fits.elim

omit [DecidableEq Tid] in
-- A slot in hand says that some cell is free or being freed: a refusal means
-- that the one at the cursor still belongs to a dequeue.
theorem Sound.refused_iff (old : Sound k s) (large : 0 < k) (here : s.queue.threads t = .enqSequence item pos) :
    s.queue.sequence (MPMCQueue.cell k pos) < pos ↔
      2 ^ k ≤ pos ∧ ∃ u, MPMCQueue.deqOwns (s.queue.threads u) = some (pos - 2 ^ k) := by
  have loaded := old.placed.waits t
  rw [here] at loaded
  change pos ≤ s.queue.enqueuePos at loaded
  constructor
  · intro refused
    obtain ⟨wraps,kept⟩ := old.placed.full_waits loaded refused
    obtain ⟨task,place⟩ := old.enqueueing here
    have token := old.slots.le t
    rw [place] at token
    have won : pos - 2 ^ k < s.queue.dequeuePos := by
      simp only [holdsSlot,Bool.toNat_true] at token
      omega
    exact ⟨wraps,(old.placed.deq.held_iff _).mp ⟨won,kept⟩⟩
  · intro given
    obtain ⟨wraps,u,owned⟩ := given
    obtain ⟨won,kept⟩ := old.placed.deq.holds owned
    have near := old.placed.near kept
    have last : pos = s.queue.enqueuePos := by omega
    have two : 2 ^ 1 ≤ 2 ^ k := Nat.pow_le_pow_right (Nat.succ_pos 1) large
    rw [last] at wraps kept ⊢
    rw [old.placed.sequence_next wraps]
    rcases MPMCQueue.mark_cases k s.queue (s.queue.enqueuePos - 2 ^ k) with ⟨freed,_⟩ | ⟨_,_,value⟩ | ⟨_,_,value⟩
    · rw [kept] at freed
      cases freed
    · omega
    · omega

omit [DecidableEq Tid] in
-- An item in hand says that some position is won or about to be published: a
-- refusal means that the one at the cursor still belongs to an enqueue.
theorem Sound.missed_iff (old : Sound k s) (sent : s.dropped = []) (here : s.queue.threads t = .deqSequence pos) :
    s.queue.sequence (MPMCQueue.cell k pos) < pos + 1 ↔ ∃ u, MPMCQueue.enqOwns (s.queue.threads u) = some pos := by
  have loaded := old.placed.waits t
  rw [here] at loaded
  change pos ≤ s.queue.dequeuePos at loaded
  constructor
  · intro refused
    have unfilled := old.placed.empty_waits refused
    have token := old.items.le t
    rw [old.dequeueing here,sent] at token
    have last : pos = s.queue.dequeuePos := by
      rcases Nat.lt_or_eq_of_le loaded with before | last
      · rw [old.placed.taken pos before] at unfilled
        cases unfilled
      · exact last
    have won : pos < s.queue.enqueuePos := by
      simp only [holdsItem,Bool.toNat_true,List.length_nil] at token
      omega
    exact (old.placed.enq.held_iff _).mp ⟨won,unfilled⟩
  · intro given
    obtain ⟨u,owned⟩ := given
    obtain ⟨won,unfilled⟩ := old.placed.enq.holds owned
    have kept : s.queue.freed pos = false := by
      cases freed : s.queue.freed pos with
      | false => rfl
      | true =>
        rw [old.placed.taken pos (old.placed.freedBelow pos freed)] at unfilled
        cases unfilled
    rw [old.placed.lap pos won (old.placed.near kept)]
    rcases MPMCQueue.mark_cases k s.queue pos with ⟨freed,_⟩ | ⟨_,filled,_⟩ | ⟨_,_,value⟩
    · rw [kept] at freed
      cases freed
    · rw [unfilled] at filled
      cases filled
    · omega

end NewMuduo.LockFreeThreadPool
