import NewMuduo.ThreadPoolMoves
import Mathlib.Algebra.BigOperators.Group.Finset.Piecewise
import Mathlib.Algebra.Order.Group.Multiset

namespace NewMuduo.ThreadPool
variable {T Tid : Type} {s after : ThreadPool T Tid} {w : Nat} {a : Agent Tid}
  {stage : Worker} {reply : RunCall T} {owner : Option (Agent Tid)} {active : Nat}

def unexecuted (s : ThreadPool T Tid) (w : Nat) : List T := (s.cache w).tasks.drop (s.cache w).index

-- What a worker has begun and what it was given, in order.
def startedBy (s : ThreadPool T Tid) (w : Nat) : List T := (s.started.filter (·.1 = w)).map (·.2)

def batchesOf (s : ThreadPool T Tid) (w : Nat) : List T := (s.taken.filter (·.worker = w)).flatMap (·.tasks)

-- A worker in fillLocalCache, with its cache used up.
def Worker.fetches : Worker → Bool
  | .locking | .predicate | .blocking | .waiting | .waking | .timedOut | .filling => true
  | _ => false

-- Where the accepted tasks are.
structure Stored (s : ThreadPool T Tid) : Prop where
  order : s.accepted = s.taken.flatMap (·.tasks) ++ s.queue
  own : ∀ w, s.startedBy w ++ s.unexecuted w = s.batchesOf w
  fresh : ∀ w, (s.worker w).fetches = true → s.unexecuted w = []
  takers : ∀ b ∈ s.taken, b.worker < s.threads.length
  starters : ∀ p ∈ s.started, p.1 < s.threads.length

-- The bounds, and what a thread has tested stays true while it holds mutex_.
structure Bounded (s : ThreadPool T Tid) : Prop where
  capacity : s.queue.length ≤ kMaxQueueSize
  room : ∀ a task, s.call a = .pushing task → s.running = false ∨ s.queue.length < kMaxQueueSize
  timed : ∀ w, s.worker w = .timedOut → s.model = .CACHE
  filled : ∀ w, s.worker w = .filling → s.model = .FIXED → s.running = true → s.queue ≠ []
  least : kMinBatchSize ≤ s.batchSize
  most : s.batchSize ≤ kMaxBatchSize
  batches : ∀ b ∈ s.taken, 1 ≤ b.tasks.length ∧ b.tasks.length ≤ b.batchSize ∧ b.batchSize ≤ kMaxBatchSize

theorem adapted_bounds (least : kMinBatchSize ≤ s.batchSize) (most : s.batchSize ≤ kMaxBatchSize) :
    kMinBatchSize ≤ s.adaptedBatchSize ∧ s.adaptedBatchSize ≤ kMaxBatchSize := by
  unfold adaptedBatchSize adapted
  unfold kMinBatchSize kMaxBatchSize at *
  split
  · omega
  · split <;> omega

theorem WorkerMove.unexecuted (move : WorkerMove s w cause stage owner active)
    (fresh : (s.worker w).fetches = true → s.unexecuted w = []) (fetches : stage.fetches = true) : s.unexecuted w = [] := by
  cases move with
  | fetch _ _ used => exact List.drop_eq_nil_of_le used
  | lock here _ => rcases here with here | here <;> exact fresh (by rw [here]; rfl)
  | relock here | ready here | block here | wait here | timeout here | spurious here => exact fresh (by rw [here]; rfl)
  | _ => cases fetches

theorem Stored.started (model : Model) (numThreads : Nat) : Stored (start model numThreads : ThreadPool T Tid) :=
  ⟨rfl,fun _ => rfl,fun _ _ => rfl,fun _ absent => (by cases absent),fun _ absent => (by cases absent)⟩

theorem Bounded.started (model : Model) (numThreads : Nat) : Bounded (start model numThreads : ThreadPool T Tid) := by
  refine ⟨Nat.zero_le _,fun _ _ absent => (by cases absent),?_,?_,Nat.le_refl _,Nat.le_of_ble_eq_true rfl,fun _ absent => (by cases absent)⟩ <;>
    · intro w here
      unfold start at here
      dsimp only at here
      split at here <;> cases here

namespace Stored

theorem take (old : Stored s) {task : T} (below : w < s.threads.length)
    (found : (s.cache w).tasks[(s.cache w).index]? = some task) : Stored {s.moves w .running with
      cache := Function.update s.cache w ⟨(s.cache w).tasks,(s.cache w).index + 1⟩
      started := s.started ++ [(w,task)]} := by
  obtain ⟨inside,value⟩ := List.getElem?_eq_some_iff.mp found
  have first : s.unexecuted w = task :: (s.cache w).tasks.drop ((s.cache w).index + 1) := by
    unfold unexecuted
    rw [List.drop_eq_getElem_cons inside,value]
  refine ⟨old.order,fun v => ?_,fun v fetches => ?_,old.takers,fun p member => ?_⟩
  · have before := old.own v
    unfold startedBy unexecuted batchesOf at *
    dsimp only [ThreadPool.moves]
    rw [List.filter_append,List.map_append]
    by_cases same : v = w
    · rw [same] at before ⊢
      rw [first] at before
      rw [Function.update_self]
      simpa using before
    · rw [Function.update_of_ne same]
      simpa [Ne.symm same] using before
  · by_cases same : v = w
    · rw [same] at fetches
      dsimp only [ThreadPool.moves] at fetches
      rw [Function.update_self] at fetches
      cases fetches
    · dsimp only [ThreadPool.moves] at fetches
      rw [Function.update_of_ne same] at fetches
      unfold unexecuted
      dsimp only
      rw [Function.update_of_ne same]
      exact old.fresh v fetches
  · rcases List.mem_append.mp member with before | last
    · exact old.starters p before
    · rw [List.mem_singleton.mp last]
      exact below

theorem batch (old : Stored s) (below : w < s.threads.length) (here : s.worker w = .filling) (n : Nat)
    {others : Nat → Worker} (woken : Woken s.worker others) {last : Worker} (ended : last.fetches = false) (size : Nat) :
    Stored {s with
      cache := Function.update s.cache w ⟨s.queue.take n,0⟩
      queue := s.queue.drop n
      taken := s.taken ++ [⟨w,size,s.queue.take n⟩]
      worker := Function.update others w last} := by
  have none : s.unexecuted w = [] := old.fresh w (by rw [here]; rfl)
  refine ⟨?_,fun v => ?_,fun v fetches => ?_,fun b member => ?_,old.starters⟩
  · dsimp only
    rw [List.flatMap_append,List.append_assoc,old.order]
    simp
  · have before := old.own v
    unfold startedBy unexecuted batchesOf at *
    dsimp only
    rw [List.filter_append,List.flatMap_append,← before]
    by_cases same : v = w
    · rw [same,Function.update_self]
      rw [none]
      simp
    · rw [Function.update_of_ne same]
      simp [Ne.symm same]
  · by_cases same : v = w
    · rw [same] at fetches
      dsimp only at fetches
      rw [Function.update_self,ended] at fetches
      cases fetches
    · dsimp only at fetches
      rw [Function.update_of_ne same,woken.keeps Worker.fetches rfl] at fetches
      unfold unexecuted
      dsimp only
      rw [Function.update_of_ne same]
      exact old.fresh v fetches
  · rcases List.mem_append.mp member with before | last
    · exact old.takers b before
    · rw [List.mem_singleton.mp last]
      exact below

variable [DecidableEq Tid]

theorem step (old : Stored s) (locked : Locked s) (turn : Turns s cause after) : Stored after := by
  cases turn with
  | none => exact old
  | worker w move =>
    refine ⟨old.order,old.own,fun v fetches => ?_,old.takers,old.starters⟩
    dsimp only [moves] at fetches
    by_cases same : v = w
    · rw [same,Function.update_self] at fetches
      rw [same]
      exact move.unexecuted (old.fresh w) fetches
    · rw [Function.update_of_ne same] at fetches
      exact old.fresh v fetches
  | call a move => exact ⟨old.order,old.own,old.fresh,old.takers,old.starters⟩
  | take w task here found => exact old.take (locked.known w (by simp [here])) found
  | batch w n others calls here some least woken called =>
    have ended : (if n = 0 then Worker.returned else .consuming).fetches = false := by split <;> rfl
    have next := old.batch (locked.known w (by simp [here])) here n woken ended s.adaptedBatchSize
    exact ⟨next.order,next.own,next.fresh,next.takers,next.starters⟩
  | push a task others here running woken =>
    refine ⟨?_,old.own,fun v fetches => ?_,old.takers,old.starters⟩
    · dsimp only
      rw [old.order,List.append_assoc]
      rfl
    · exact old.fresh v (woken.keeps Worker.fetches rfl v ▸ fetches)
  | stop idle running => exact ⟨old.order,old.own,old.fresh,old.takers,old.starters⟩
  | notify_all here =>
    refine ⟨old.order,old.own,fun v fetches => ?_,old.takers,old.starters⟩
    exact old.fresh v ((Woken.all s.worker).keeps Worker.fetches rfl v ▸ fetches)
  | join here all => exact ⟨old.order,old.own,old.fresh,old.takers,old.starters⟩

end Stored

theorem WorkerMove.filled (move : WorkerMove s w cause stage owner active) (old : Bounded s) (fills : stage = .filling)
    (fixed : s.model = .FIXED) (running : s.running = true) : s.queue ≠ [] := by
  cases move with
  | relock here _ => cases fixed.symm.trans (old.timed w here)
  | ready here some =>
    refine some.resolve_left fun stopped => ?_
    cases running.symm.trans stopped
  | _ => cases fills

theorem WorkerMove.timed (move : WorkerMove s w cause stage owner active) (late : stage = .timedOut) : s.model = .CACHE := by
  cases move with
  | timeout _ model => exact model
  | _ => cases late

namespace Bounded

theorem moves (old : Bounded s) (late : stage = .timedOut → s.model = .CACHE)
    (fills : stage = .filling → s.model = .FIXED → s.running = true → s.queue ≠ []) : Bounded (s.moves w stage) := by
  refine ⟨old.capacity,old.room,?_,?_,old.least,old.most,old.batches⟩
  · exact (Function.forall_update_iff s.worker fun _ stage => stage = .timedOut → s.model = .CACHE).mpr
      ⟨late,fun v _ => old.timed v⟩
  · exact (Function.forall_update_iff s.worker fun _ stage => stage = .filling → s.model = .FIXED → s.running = true →
      s.queue ≠ []).mpr ⟨fills,fun v _ => old.filled v⟩

theorem call [DecidableEq Tid] (old : Bounded s) (move : CallMove s a cause reply owner) : Bounded {s.answers a reply with mutex := owner} := by
  refine ⟨old.capacity,?_,old.timed,old.filled,old.least,old.most,old.batches⟩
  refine (Function.forall_update_iff s.call fun _ call => ∀ task, call = .pushing task → s.running = false ∨
    s.queue.length < kMaxQueueSize).mpr ⟨fun task here => ?_,fun b _ => old.room b⟩
  cases move with
  | ready _ room => exact room
  | _ => cases here

theorem batch (old : Bounded s) (locked : Locked s) (here : s.worker w = .filling)
    (some : s.queue ≠ [] ∨ s.model = .FIXED ∧ s.running = true) (least : n = min s.adaptedBatchSize s.queue.length)
    {others : Nat → Worker} {calls : Agent Tid → RunCall T} (woken : Woken s.worker others)
    (called : CallsWoken s.call calls) {last : Worker} (ended : last = .returned ∨ last = .consuming) : Bounded {s with
      batchSize := s.adaptedBatchSize
      queue := s.queue.drop n
      taken := s.taken ++ [⟨w,s.adaptedBatchSize,s.queue.take n⟩]
      worker := Function.update others w last
      call := calls} := by
  obtain ⟨low,high⟩ := adapted_bounds old.least old.most
  have waits : s.queue ≠ [] := some.elim id fun fixed => old.filled w here fixed.1 fixed.2
  have shrinks : (s.queue.drop n).length ≤ s.queue.length := List.length_drop ▸ Nat.sub_le _ _
  have elsewhere : ∀ v stage, stage ≠ .waking → stage ≠ .returned → stage ≠ .consuming →
      Function.update others w last v = stage → v ≠ w ∧ s.worker v = stage := by
    intro v stage asleep going busy there
    by_cases same : v = w
    · rw [same,Function.update_self] at there
      rcases ended with rfl | rfl
      · exact absurd there.symm going
      · exact absurd there.symm busy
    · rw [Function.update_of_ne same] at there
      exact ⟨same,woken.was asleep there⟩
  refine ⟨Nat.le_trans shrinks old.capacity,fun a task there => ?_,fun v there => ?_,fun v there => ?_,low,high,fun b member => ?_⟩
  · have pushing : s.call a = .pushing task := by
      rcases called with rfl | rfl
      · exact there
      · dsimp only at there
        cases before : s.call a <;> rw [before] at there <;> first | exact there | cases there
    exact (old.room a task pushing).imp_right (Nat.lt_of_le_of_lt shrinks)
  · exact old.timed v (elsewhere v .timedOut (by simp) (by simp) (by simp) there).2
  · -- two workers that fill would both hold mutex_
    obtain ⟨apart,filling⟩ := elsewhere v .filling (by simp) (by simp) (by simp) there
    have one : (s.worker v).holds = true := by rw [filling]; rfl
    have two : (s.worker w).holds = true := by rw [here]; rfl
    exact absurd (Holding.unique locked.workers worker_injective one two) apart
  · rcases List.mem_append.mp member with before | latest
    · exact old.batches b before
    · rw [List.mem_singleton.mp latest]
      dsimp only
      have positive := List.length_pos_of_ne_nil waits
      unfold kMinBatchSize at low
      rw [List.length_take]
      exact ⟨by omega,by omega,high⟩

variable [DecidableEq Tid]

theorem push (old : Bounded s) (locked : Locked s) {task : T} (here : s.call a = .pushing task) (running : s.running = true)
    {others : Nat → Worker} (woken : Woken s.worker others) : Bounded {s.answers a .idle with
      queue := s.queue ++ [task]
      worker := others} := by
  have room : s.queue.length < kMaxQueueSize := (old.room a task here).resolve_left (by simp [running])
  refine ⟨?_,fun b other there => ?_,fun v there => old.timed v (woken.was (by simp) there),fun v _ _ _ => ?_,
    old.least,old.most,old.batches⟩
  · dsimp only [ThreadPool.answers]
    rw [List.length_append,List.length_singleton]
    omega
  · -- two threads that push would both hold mutex_
    dsimp only [ThreadPool.answers] at there
    by_cases same : b = a
    · rw [same,Function.update_self] at there
      cases there
    · rw [Function.update_of_ne same] at there
      have one : (s.call b).holds = true := by rw [there]; rfl
      have two : (s.call a).holds = true := by rw [here]; rfl
      exact absurd (Holding.unique locked.calls Function.injective_id one two) same
  · exact List.append_ne_nil_of_right_ne_nil _ (List.cons_ne_nil _ _)

theorem step (old : Bounded s) (locked : Locked s) (turn : Turns s cause after) : Bounded after := by
  cases turn with
  | none => exact old
  | worker w move =>
    have next := @moves T Tid s w _ old move.timed (move.filled old)
    exact ⟨next.capacity,next.room,next.timed,next.filled,next.least,next.most,next.batches⟩
  | call a move => exact old.call move
  | take w task here found =>
    have next := @moves T Tid s w .running old (fun absent => (by cases absent)) fun absent => (by cases absent)
    exact ⟨next.capacity,next.room,next.timed,next.filled,next.least,next.most,next.batches⟩
  | batch w n others calls here some least woken called =>
    have next := old.batch locked here some least woken (calls_woken called) (batch_ends n)
    exact ⟨next.capacity,next.room,next.timed,next.filled,next.least,next.most,next.batches⟩
  | push a task others here running woken =>
    have next := old.push locked here running woken
    exact ⟨next.capacity,next.room,next.timed,next.filled,next.least,next.most,next.batches⟩
  | stop idle running =>
    exact ⟨old.capacity,fun _ _ _ => .inl rfl,old.timed,fun _ _ _ absent => (by cases absent),old.least,old.most,old.batches⟩
  | notify_all here =>
    have woken := Woken.all s.worker
    exact ⟨old.capacity,old.room,fun v there => old.timed v (woken.was (by simp) there),
      fun v there => old.filled v (woken.was (by simp) there),old.least,old.most,old.batches⟩
  | join here all => exact ⟨old.capacity,old.room,old.timed,old.filled,old.least,old.most,old.batches⟩

end Bounded

-- The same sum taken worker by worker.
theorem sum_workers {Item : Type} (worker : Item → Nat) (tasks : Item → List T) (items : List Item) (n : Nat)
    (below : ∀ item ∈ items, worker item < n) :
    ∑ w ∈ Finset.range n, (((items.filter (worker · = w)).flatMap tasks : List T) : Multiset T) = (items.flatMap tasks : List T) := by
  induction items with
  | nil => exact Finset.sum_const_zero
  | cons item rest ih =>
    have later := ih fun other member => below other (List.mem_cons_of_mem _ member)
    have one : ∀ w, ((((item :: rest).filter (worker · = w)).flatMap tasks : List T) : Multiset T) =
        (if worker item = w then (tasks item : Multiset T) else 0) + ((rest.filter (worker · = w)).flatMap tasks : List T) := by
      intro w
      by_cases same : worker item = w
      · simp [same]
      · simp [same]
    simp only [one,Finset.sum_add_distrib,later,Finset.sum_ite_eq,Finset.mem_range,
      if_pos (below item List.mem_cons_self),List.flatMap_cons,Multiset.coe_add]

-- The tasks, by worker, are those of all batches.
theorem Stored.whole (stored : Stored s) : (s.accepted : Multiset T) = (s.queue : Multiset T) +
    ∑ w ∈ Finset.range s.threads.length, (s.unexecuted w : Multiset T) + (s.started.map (·.2) : List T) := by
  have begun := sum_workers (fun p : Nat × T => p.1) (fun p => [p.2]) s.started s.threads.length stored.starters
  have given := sum_workers (fun b : Taken T => b.worker) (·.tasks) s.taken s.threads.length stored.takers
  have each : ∀ w, (s.batchesOf w : Multiset T) = (s.startedBy w : Multiset T) + (s.unexecuted w : Multiset T) := by
    intro w
    rw [← stored.own w,Multiset.coe_add]
  have single : ∀ items : List (Nat × T), items.flatMap (fun p => [p.2]) = items.map (·.2) := fun _ => List.map_eq_flatMap.symm
  have shared : ∑ w ∈ Finset.range s.threads.length, (s.batchesOf w : Multiset T) = (s.started.map (·.2) : List T) +
      ∑ w ∈ Finset.range s.threads.length, (s.unexecuted w : Multiset T) := by
    simp only [each,Finset.sum_add_distrib]
    unfold startedBy
    simp only [single] at begun
    rw [begun]
  unfold batchesOf at shared
  rw [given] at shared
  rw [stored.order,← Multiset.coe_add,shared,add_comm,add_assoc]
  exact congrArg _ (add_comm _ _)

structure Valid (s : ThreadPool T Tid) : Prop where
  locked : Locked s
  stored : Stored s
  bounded : Bounded s

theorem Valid.started (model : Model) (numThreads : Nat) : Valid (start model numThreads : ThreadPool T Tid) :=
  ⟨.started model numThreads,.started model numThreads,.started model numThreads⟩

variable [DecidableEq Tid]

theorem valid : (machine : Machine (ThreadPool T Tid) (Label T Tid)).Preserves (fun _ _ => True) Valid := by
  refine ⟨?_,fun s label after old _ taken => ?_⟩
  · intro s origin
    obtain ⟨model,numThreads,_,rfl⟩ := origin
    exact .started model numThreads
  · have turn := next_turns old.locked taken
    exact ⟨old.locked.step turn,old.stored.step old.locked turn,old.bounded.step old.locked turn⟩

theorem tasks_conserved (path : machine.Reached s) :
    ((s.accepted : Multiset T) = (s.queue : Multiset T) +
      ∑ w ∈ Finset.range s.threads.length, (s.unexecuted w : Multiset T) + (s.started.map (·.2) : List T)) ∧
    s.accepted = s.taken.flatMap (·.tasks) ++ s.queue ∧
    (∀ w, s.startedBy w ++ s.unexecuted w = s.batchesOf w) ∧
    s.queue.length ≤ kMaxQueueSize ∧ kMinBatchSize ≤ s.batchSize ∧ s.batchSize ≤ kMaxBatchSize ∧
    ∀ b ∈ s.taken, 1 ≤ b.tasks.length ∧ b.tasks.length ≤ b.batchSize ∧ b.batchSize ≤ kMaxBatchSize := by
  obtain ⟨_,stored,bounded⟩ := valid.reached path
  exact ⟨stored.whole,stored.order,stored.own,bounded.capacity,bounded.least,bounded.most,bounded.batches⟩

-- Two tasks come in one batch, and the worker has begun the first.
def twoTasks : List (Label Nat Unit) :=
  let run (task : Nat) : List (Label Nat Unit) :=
    [.run (.other ()) task,.call (.other ()) 0 0,.call (.other ()) 0 0,.call (.other ()) 0 0]
  run 7 ++ run 8 ++ List.replicate 6 (.worker 0 0)

theorem twoTasks_conserved : ∃ s, machine.run (start .CACHE 1) twoTasks = some s ∧ s.started = [(0,7)] ∧
    s.unexecuted 0 = [8] ∧ s.accepted = s.taken.flatMap (·.tasks) ++ s.queue ∧
    ∀ w, s.startedBy w ++ s.unexecuted w = s.batchesOf w := by
  have ends : ((machine.run (start .CACHE 1) twoTasks).map fun s => (s.started,s.unexecuted 0)) = some ([(0,7)],[8]) := by
    decide +kernel
  obtain ⟨s,ran,last⟩ := Option.map_eq_some_iff.mp ends
  obtain ⟨started,unexecuted⟩ := Prod.mk.inj last
  have path : machine.Reached s := .run (.start ⟨.CACHE,1,Nat.one_pos,rfl⟩) ran
  obtain ⟨_,order,own,_⟩ := tasks_conserved path
  exact ⟨s,ran,started,unexecuted,order,own⟩

end NewMuduo.ThreadPool
