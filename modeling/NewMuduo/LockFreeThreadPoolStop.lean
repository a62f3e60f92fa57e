import NewMuduo.LockFreeThreadPool
import NewMuduo.Tally

namespace NewMuduo

-- Where a thread is in run() or runInThread(). user is a caller outside run()
-- and a worker inside task(); the three tests are the reads of running_.
inductive StoppablePool.Stage (T : Type) where
  | user
  | testRun (task : T)
  | acquireSlot (task : T)
  | testSlot (task : T)
  | enqueue (task : T)
  | releaseItem
  | testWork
  | acquireItem
  | testItem
  | dequeue
  | releaseSlot (task : T)
  | returned
  deriving DecidableEq, Repr

-- stop() with the release() calls that are left; then it joins.
inductive StoppablePool.Stop where
  | idle
  | releasing (left : Nat)
  | joined
  deriving DecidableEq, Repr

-- base/LockFreeThreadPool.h from start() on, with running_ and stop(). late
-- counts the tasks that workers have begun since running_ was cleared, passed
-- the slots that were acquired since.
structure StoppablePool (T Tid : Type) where
  queue : MPMCQueue T Tid
  slotsSem : Nat
  itemsSem : Nat
  running : Bool
  stage : Tid → StoppablePool.Stage T
  stop : StoppablePool.Stop
  late : Nat
  passed : Nat

namespace StoppablePool
variable {T Tid : Type} [DecidableEq Tid] {s after : StoppablePool T Tid} {k : Nat} {t : Tid} {workers : Finset Tid}

def move (s : StoppablePool T Tid) (t : Tid) (stage : Stage T) : StoppablePool T Tid :=
  {s with stage := Function.update s.stage t stage}

@[simp] theorem move_itemsSem (s : StoppablePool T Tid) (t : Tid) (stage : Stage T) : (s.move t stage).itemsSem = s.itemsSem := rfl
@[simp] theorem move_slotsSem (s : StoppablePool T Tid) (t : Tid) (stage : Stage T) : (s.move t stage).slotsSem = s.slotsSem := rfl
@[simp] theorem move_late (s : StoppablePool T Tid) (t : Tid) (stage : Stage T) : (s.move t stage).late = s.late := rfl

-- After an enqueue, whatever it returned: assert(ok) is compiled out.
def enqueued (queue : MPMCQueue T Tid) (t : Tid) (task : T) : Stage T :=
  match LockFreeThreadPool.returned queue t with
  | none => .enqueue task
  | some _ => .releaseItem

def dequeued (queue : MPMCQueue T Tid) (t : Tid) : Stage T :=
  match LockFreeThreadPool.returned queue t with
  | none => .dequeue
  | some (.dequeued _ task) => .releaseSlot task
  | some _ => .testWork

def step (k : Nat) (movedFrom : T → T) (s : StoppablePool T Tid) (t : Tid) (spurious : Bool) : StoppablePool T Tid :=
  match s.stage t with
  | .user | .returned => s
  | .testRun task => s.move t (if s.running then .acquireSlot task else .user)
  | .acquireSlot task => {s.move t (.testSlot task) with
      slotsSem := s.slotsSem - 1
      passed := if s.running then s.passed else s.passed + 1}
  | .testSlot task =>
    if s.running then {s.move t (.enqueue task) with queue := s.queue.put t (.enqLoad task)} else s.move t .user
  | .enqueue task =>
    let queue := s.queue.step k movedFrom t spurious
    {s.move t (enqueued queue t task) with queue := queue}
  | .releaseItem => {s.move t .user with itemsSem := s.itemsSem + 1}
  | .testWork => s.move t (if s.running then .acquireItem else .returned)
  | .acquireItem => {s.move t .testItem with itemsSem := s.itemsSem - 1}
  | .testItem => if s.running then {s.move t .dequeue with queue := s.queue.put t .deqLoad} else s.move t .returned
  | .dequeue =>
    let queue := s.queue.step k movedFrom t spurious
    {s.move t (dequeued queue t) with queue := queue}
  | .releaseSlot _ => {s.move t .user with
      slotsSem := s.slotsSem + 1
      late := if s.running then s.late else s.late + 1}

inductive Label (T Tid : Type) where
  | run (t : Tid) (task : T)
  | finish (t : Tid)
  | step (t : Tid) (spurious : Bool)
  | stop
  | release
  | join

def Stage.isUser : Stage T → Bool
  | .user => true
  | _ => false

def Stage.isReturned : Stage T → Bool
  | .returned => true
  | _ => false

-- acquire() waits while the count is 0, join() for the workers. stop() is
-- called once, by a thread that is none of them.
def allowed (workers : Finset Tid) (s : StoppablePool T Tid) : Label T Tid → Bool
  | .run t _ => (s.stage t).isUser
  | .finish t => (s.stage t).isUser && decide (t ∈ workers)
  | .step t _ => match s.stage t with
    | .user | .returned => false
    | .acquireSlot _ => 0 < s.slotsSem
    | .acquireItem => 0 < s.itemsSem
    | _ => true
  | .stop => s.stop == .idle
  | .release => match s.stop with
    | .releasing (_ + 1) => true
    | _ => false
  | .join => s.stop == .releasing 0 && decide (∀ w ∈ workers, (s.stage w).isReturned = true)

def apply (k : Nat) (movedFrom : T → T) (workers : Finset Tid) (s : StoppablePool T Tid) : Label T Tid → StoppablePool T Tid
  | .run t task => s.move t (.testRun task)
  | .finish t => s.move t .testWork
  | .step t spurious => s.step k movedFrom t spurious
  | .stop => {s with running := false,stop := .releasing workers.card}
  | .release => match s.stop with
    | .releasing (left + 1) => {s with itemsSem := s.itemsSem + 1,stop := .releasing left}
    | _ => s
  | .join => {s with stop := .joined}

def new (k : Nat) (initial : T) (workers : Finset Tid) : StoppablePool T Tid :=
  ⟨.new initial,2 ^ k,0,true,fun t => if t ∈ workers then .testWork else .user,.idle,0,0⟩

def machine (k : Nat) (movedFrom : T → T) (initial : T) (workers : Finset Tid) : Machine (StoppablePool T Tid) (Label T Tid) :=
  .guarded (· = new k initial workers) (fun s label => s.allowed workers label = true) (apply k movedFrom workers)

-- What a step of a thread can be.
inductive Turns (s : StoppablePool T Tid) (t : Tid) : StoppablePool T Tid → Prop where
  | testRun : s.stage t = .testRun task → s.running = true → Turns s t (s.move t (.acquireSlot task))
  | refused : s.stage t = .testRun task → s.running = false → Turns s t (s.move t .user)
  | acquireSlot : s.stage t = .acquireSlot task → 0 < s.slotsSem → Turns s t {s.move t (.testSlot task) with
      slotsSem := s.slotsSem - 1
      passed := if s.running then s.passed else s.passed + 1}
  | testSlot (queue : MPMCQueue T Tid) : s.stage t = .testSlot task → s.running = true →
      Turns s t {s.move t (.enqueue task) with queue := queue}
  | givenUp : s.stage t = .testSlot task → s.running = false → Turns s t (s.move t .user)
  | enqueue (queue : MPMCQueue T Tid) : s.stage t = .enqueue task → Turns s t {s.move t (.enqueue task) with queue := queue}
  | enqueued (queue : MPMCQueue T Tid) : s.stage t = .enqueue task → Turns s t {s.move t .releaseItem with queue := queue}
  | releaseItem : s.stage t = .releaseItem → Turns s t {s.move t .user with itemsSem := s.itemsSem + 1}
  | testWork : s.stage t = .testWork → s.running = true → Turns s t (s.move t .acquireItem)
  | acquireItem : s.stage t = .acquireItem → 0 < s.itemsSem → Turns s t {s.move t .testItem with itemsSem := s.itemsSem - 1}
  | testItem (queue : MPMCQueue T Tid) : s.stage t = .testItem → s.running = true →
      Turns s t {s.move t .dequeue with queue := queue}
  | returned : s.stage t = .testWork ∨ s.stage t = .testItem → s.running = false → Turns s t (s.move t .returned)
  | dequeue (queue : MPMCQueue T Tid) : s.stage t = .dequeue → Turns s t {s.move t .dequeue with queue := queue}
  | dequeued (queue : MPMCQueue T Tid) (task : T) : s.stage t = .dequeue → Turns s t {s.move t (.releaseSlot task) with queue := queue}
  | missed (queue : MPMCQueue T Tid) : s.stage t = .dequeue → Turns s t {s.move t .testWork with queue := queue}
  | releaseSlot : s.stage t = .releaseSlot task → Turns s t {s.move t .user with
      slotsSem := s.slotsSem + 1
      late := if s.running then s.late else s.late + 1}

theorem step_turns (movedFrom : T → T) (spurious : Bool) (able : s.allowed workers (.step t spurious) = true) :
    Turns s t (s.step k movedFrom t spurious) := by
  unfold step
  cases here : s.stage t with
  | user | returned => simp [allowed,here] at able
  | testRun task =>
    dsimp only
    split
    · rename_i runs
      exact .testRun here runs
    · rename_i stopped
      exact .refused here (Bool.not_eq_true _ ▸ stopped)
  | acquireSlot task => exact .acquireSlot here (by simpa [allowed,here] using able)
  | testSlot task =>
    dsimp only
    split
    · rename_i runs
      exact .testSlot _ here runs
    · rename_i stopped
      exact .givenUp here (Bool.not_eq_true _ ▸ stopped)
  | enqueue task =>
    dsimp only [StoppablePool.enqueued]
    split
    · exact .enqueue _ here
    · exact .enqueued _ here
  | releaseItem => exact .releaseItem here
  | testWork =>
    dsimp only
    split
    · rename_i runs
      exact .testWork here runs
    · rename_i stopped
      exact .returned (.inl here) (Bool.not_eq_true _ ▸ stopped)
  | acquireItem => exact .acquireItem here (by simpa [allowed,here] using able)
  | testItem =>
    dsimp only
    split
    · rename_i runs
      exact .testItem _ here runs
    · rename_i stopped
      exact .returned (.inr here) (Bool.not_eq_true _ ▸ stopped)
  | dequeue =>
    dsimp only [StoppablePool.dequeued]
    split
    · exact .dequeue _ here
    · exact .dequeued _ _ here
    · exact .missed _ here
  | releaseSlot task => exact .releaseSlot here

-- Where only workers are, where one waits for a task and where it has one.
def atWork : Stage T → Bool
  | .testWork | .acquireItem | .testItem | .dequeue | .releaseSlot _ | .returned => true
  | _ => false

def awaits : Stage T → Bool
  | .acquireItem => true
  | _ => false

def serves : Stage T → Bool
  | .dequeue | .releaseSlot _ => true
  | _ => false

theorem outside_counts {stage : Stage T} (outside : atWork stage = false) : awaits stage = false ∧ serves stage = false := by
  cases stage <;> first | exact ⟨rfl,rfl⟩ | cases outside

-- The releases of stop() are enough for all who wait, and no worker serves
-- twice after running_ was cleared.
structure Kept (workers : Finset Tid) (s : StoppablePool T Tid) : Prop where
  inside : ∀ t, t ∉ workers → atWork (s.stage t) = false
  running : s.running = true ↔ s.stop = .idle
  fresh : s.running = true → s.late = 0
  tokens : ∀ left, s.stop = .releasing left → ∃ n, Tally awaits s.stage n ∧ n ≤ s.itemsSem + left
  late : s.running = false → ∃ n, Tally serves s.stage n ∧ s.late + n ≤ workers.card

theorem Kept.worker (old : Kept workers s) (here : atWork (s.stage t) = true) : t ∈ workers := by
  by_contra apart
  rw [old.inside t apart] at here
  cases here

omit [DecidableEq Tid] in
theorem Kept.stopped (old : Kept workers s) {left : Nat} (stop : s.stop = .releasing left) : s.running = false := by
  by_contra runs
  have idle := old.running.mp (by simpa using runs)
  rw [stop] at idle
  cases idle

-- One thread goes somewhere else.
theorem Kept.turn (old : Kept workers s) {stage : Stage T} (stages : after.stage = Function.update s.stage t stage)
    (running : after.running = s.running) (stop : after.stop = s.stop) (inside : atWork stage = true → t ∈ workers)
    (fresh : s.running = true → after.late = s.late)
    (tokens : s.running = false → (awaits stage).toNat + s.itemsSem ≤ after.itemsSem + (awaits (s.stage t)).toNat)
    (late : s.running = false → after.late + (serves stage).toNat ≤ s.late + (serves (s.stage t)).toNat) : Kept workers after := by
  refine ⟨?_,?_,?_,?_,?_⟩
  · intro u apart
    rw [stages]
    by_cases equal : u = t
    · rw [equal,Function.update_self,Bool.eq_false_iff]
      exact fun here => apart (equal ▸ inside here)
    · rw [Function.update_of_ne equal]
      exact old.inside u apart
  · rw [running,stop]
    exact old.running
  · rw [running]
    exact fun runs => (fresh runs).trans (old.fresh runs)
  · intro left waits
    rw [stop] at waits
    obtain ⟨n,tally,enough⟩ := old.tokens left waits
    have room := tokens (old.stopped waits)
    have mine := tally.le t
    rw [stages]
    exact ⟨_,tally.update t stage,by omega⟩
  · intro stopped
    rw [running] at stopped
    obtain ⟨n,tally,bound⟩ := old.late stopped
    have room := late stopped
    have mine := tally.le t
    rw [stages]
    exact ⟨_,tally.update t stage,by omega⟩

theorem Kept.step (old : Kept workers s) (turn : Turns s t after) : Kept workers after := by
  have still : ∀ {stage : Stage T}, s.stage t = stage → atWork stage = true → t ∈ workers :=
    fun here work => old.worker (by rw [here]; exact work)
  have clear : ∀ {p : Prop}, s.running = true → s.running = false → p := fun runs stopped => by
    rw [runs] at stopped
    cases stopped
  cases turn with
  | testRun here runs =>
    exact old.turn rfl rfl rfl (fun absent => (by cases absent)) (fun _ => rfl) (clear runs) (clear runs)
  | refused here _ =>
    exact old.turn rfl rfl rfl (fun absent => (by cases absent)) (fun _ => rfl) (by simp [here,awaits]) (by simp [here,serves])
  | acquireSlot here _ =>
    exact old.turn rfl rfl rfl (fun absent => (by cases absent)) (fun _ => rfl) (by simp [here,awaits]) (by simp [here,serves])
  | testSlot queue here runs =>
    exact old.turn rfl rfl rfl (fun absent => (by cases absent)) (fun _ => rfl) (clear runs) (clear runs)
  | givenUp here _ =>
    exact old.turn rfl rfl rfl (fun absent => (by cases absent)) (fun _ => rfl) (by simp [here,awaits]) (by simp [here,serves])
  | enqueue queue here =>
    exact old.turn rfl rfl rfl (fun absent => (by cases absent)) (fun _ => rfl) (by simp [here,awaits]) (by simp [here,serves])
  | enqueued queue here =>
    exact old.turn rfl rfl rfl (fun absent => (by cases absent)) (fun _ => rfl) (by simp [here,awaits]) (by simp [here,serves])
  | releaseItem here =>
    exact old.turn rfl rfl rfl (fun absent => (by cases absent)) (fun _ => rfl) (by simp [here,awaits]) (by simp [here,serves])
  | testWork here runs =>
    exact old.turn rfl rfl rfl (fun _ => still here rfl) (fun _ => rfl) (clear runs) (clear runs)
  | acquireItem here some =>
    refine old.turn rfl rfl rfl (fun _ => still here rfl) (fun _ => rfl) (fun _ => ?_) (by simp [here,serves])
    simp only [here,awaits,Bool.toNat_true,Bool.toNat_false]
    omega
  | testItem queue here runs =>
    exact old.turn rfl rfl rfl (fun _ => still here rfl) (fun _ => rfl) (clear runs) (clear runs)
  | returned here _ =>
    refine old.turn rfl rfl rfl (fun _ => ?_) (fun _ => rfl) (fun _ => ?_) (fun _ => ?_)
    · rcases here with here | here
      · exact still here rfl
      · exact still here rfl
    · exact Nat.le_trans (by simp [awaits,move]) (Nat.le_add_right _ _)
    · exact Nat.le_trans (by simp [serves,move]) (Nat.le_add_right _ _)
  | dequeue queue here =>
    exact old.turn rfl rfl rfl (fun _ => still here rfl) (fun _ => rfl) (by simp [here,awaits]) (by simp [here,serves])
  | dequeued queue task here =>
    exact old.turn rfl rfl rfl (fun _ => still here rfl) (fun _ => rfl) (by simp [here,awaits]) (by simp [here,serves])
  | missed queue here =>
    exact old.turn rfl rfl rfl (fun _ => still here rfl) (fun _ => rfl) (by simp [here,awaits]) (by simp [here,serves])
  | releaseSlot here =>
    refine old.turn rfl rfl rfl (fun absent => (by cases absent)) (fun runs => if_pos runs) (by simp [here,awaits]) (fun stopped => ?_)
    simp [here,serves,stopped]

theorem isUser_iff {stage : Stage T} : stage.isUser = true ↔ stage = .user := by
  cases stage <;> simp [Stage.isUser]

theorem isReturned_iff {stage : Stage T} : stage.isReturned = true ↔ stage = .returned := by
  cases stage <;> simp [Stage.isReturned]

theorem new_kept (k : Nat) (initial : T) (workers : Finset Tid) : Kept workers (new k initial workers) := by
  refine ⟨?_,iff_of_true rfl rfl,fun _ => rfl,?_,?_⟩
  · intro t apart
    simp [new,apart,atWork]
  · intro left absent
    cases absent
  · intro absent
    cases absent

theorem Kept.next (old : Kept workers s) {movedFrom : T → T} {label : Label T Tid} (able : s.allowed workers label = true) :
    Kept workers (s.apply k movedFrom workers label) := by
  cases label with
  | run t task =>
    have here := isUser_iff.mp able
    exact old.turn rfl rfl rfl (fun absent => (by cases absent)) (fun _ => rfl) (by simp [here,awaits,apply]) (by simp [here,serves,apply])
  | finish t =>
    simp only [allowed,Bool.and_eq_true,decide_eq_true_eq] at able
    have here := isUser_iff.mp able.1
    exact old.turn rfl rfl rfl (fun _ => able.2) (fun _ => rfl) (by simp [here,awaits,apply]) (by simp [here,serves,apply])
  | step t spurious => exact old.step (step_turns movedFrom spurious able)
  | stop =>
    have idle : s.stop = .idle := by simpa [allowed] using able
    have none := old.fresh (old.running.mpr idle)
    refine ⟨old.inside,iff_of_false Bool.false_ne_true (fun absent => (by cases absent)),fun absent => (by cases absent),?_,?_⟩
    · intro left same
      cases same
      obtain ⟨n,tally,few⟩ : ∃ n, Tally awaits s.stage n ∧ n ≤ workers.card :=
        Tally.within workers fun t apart => (outside_counts (old.inside t apart)).1
      exact ⟨n,tally,Nat.le_trans few (Nat.le_add_left _ _)⟩
    · intro _
      obtain ⟨n,tally,few⟩ : ∃ n, Tally serves s.stage n ∧ n ≤ workers.card :=
        Tally.within workers fun t apart => (outside_counts (old.inside t apart)).2
      refine ⟨n,tally,?_⟩
      dsimp only [apply]
      rw [none,Nat.zero_add]
      exact few
  | release =>
    cases waits : s.stop with
    | idle => simp [allowed,waits] at able
    | joined => simp [allowed,waits] at able
    | releasing left =>
      cases left with
      | zero => simp [allowed,waits] at able
      | succ left =>
        have stopped := old.stopped waits
        simp only [apply,waits]
        refine ⟨old.inside,?_,old.fresh,?_,old.late⟩
        · dsimp only
          rw [stopped]
          exact iff_of_false Bool.false_ne_true (fun absent => (by cases absent))
        · intro other same
          cases same
          obtain ⟨n,tally,enough⟩ := old.tokens _ waits
          refine ⟨n,tally,?_⟩
          dsimp only
          omega
  | join =>
    simp only [allowed,Bool.and_eq_true,beq_iff_eq] at able
    have stopped := old.stopped able.1
    refine ⟨old.inside,?_,old.fresh,fun _ absent => (by cases absent),old.late⟩
    dsimp only [apply]
    rw [stopped]
    exact iff_of_false Bool.false_ne_true (fun absent => (by cases absent))

theorem preserves (k : Nat) (movedFrom : T → T) (initial : T) (workers : Finset Tid) :
    (machine k movedFrom initial workers).Preserves (fun _ _ => True) (Kept workers) where
  start s origin := by
    cases origin
    exact new_kept k initial workers
  step s label after old _ taken := by
    obtain ⟨able,same⟩ := Machine.guarded_parts.mp taken
    rw [← same]
    exact old.next able

-- Once stop() waits in join, a worker is asleep in neither semaphore unless its
-- own task waits for a slot in run(): all others can go on, they begin no more
-- tasks than there are workers, and each test of running_ sends them home.
theorem every_worker_leaves {movedFrom : T → T} {initial : T} (path : (machine k movedFrom initial workers).Reached s)
    (joins : s.stop = .releasing 0) :
    s.late ≤ workers.card ∧ ∀ w ∈ workers, s.stage w = .returned ∨ s.stage w = .user ∨ (∃ task, s.stage w = .acquireSlot task) ∨
      (s.allowed workers (.step w false) = true ∧ (s.stage w = .testWork ∨ s.stage w = .testItem →
        (s.apply k movedFrom workers (.step w false)).stage w = .returned)) := by
  have old := (preserves k movedFrom initial workers).reached path
  have stopped := old.stopped joins
  refine ⟨?_,fun w _ => ?_⟩
  · obtain ⟨n,_,bound⟩ := old.late stopped
    omega
  · cases here : s.stage w with
    | returned => exact .inl rfl
    | user => exact .inr (.inl rfl)
    | acquireSlot task => exact .inr (.inr (.inl ⟨task,rfl⟩))
    | acquireItem =>
      obtain ⟨n,tally,enough⟩ := old.tokens 0 joins
      have mine := tally.le w
      rw [here] at mine
      have some : 0 < s.itemsSem := Nat.lt_of_lt_of_le mine enough
      exact .inr (.inr (.inr ⟨by simp [allowed,here,some],by simp⟩))
    | testRun | testSlot | enqueue | releaseItem | dequeue | releaseSlot =>
      exact .inr (.inr (.inr ⟨by simp [allowed,here],by simp⟩))
    | testWork | testItem =>
      exact .inr (.inr (.inr ⟨by simp [allowed,here],fun _ => by simp [apply,step,here,stopped,move]⟩))

-- One worker that waits for a task.
theorem waiting_worker_released : ∃ s : StoppablePool Nat Nat, (machine 1 (fun _ => 0) 0 {0}).run (new 1 0 {0})
      [.step 0 false,.stop,.release] = some s ∧ s.stage 0 = .acquireItem ∧ s.allowed {0} (.step 0 false) = true := by
  have found : ((machine 1 (fun _ => 0) 0 {0}).run (new 1 0 {0} : StoppablePool Nat Nat) [.step 0 false,.stop,.release]).map
      (fun s => (s.stage 0,s.stop)) = some (.acquireItem,.releasing 0) := by decide +kernel
  obtain ⟨s,ran,parts⟩ := Option.map_eq_some_iff.mp found
  simp only [Prod.mk.injEq] at parts
  obtain ⟨here,joins⟩ := parts
  have path : (machine 1 (fun _ => 0) 0 {0}).Reached s := Machine.Reached.run (.start rfl) ran
  refine ⟨s,ran,here,?_⟩
  rcases (every_worker_leaves path joins).2 0 (Finset.mem_singleton_self 0) with back | code | ⟨task,slot⟩ | able
  · rw [here] at back
    cases back
  · rw [here] at code
    cases code
  · rw [here] at slot
    cases slot
  · exact able.1

-- Nobody is left to give a slot back.
structure Jammed (s : StoppablePool T Tid) : Prop where
  stopped : s.running = false
  begun : s.stop ≠ .idle
  served : ∀ t, serves (s.stage t) = false
  full : s.slotsSem = 0

-- No task is begun, and who waits for a slot goes on waiting.
structure Stuck (s after : StoppablePool T Tid) : Prop where
  jammed : Jammed after
  late : after.late = s.late
  slots : ∀ t task, s.stage t = .acquireSlot task → after.stage t = .acquireSlot task

theorem Jammed.turn (old : Jammed s) {stage : Stage T} (stages : after.stage = Function.update s.stage t stage)
    (running : after.running = s.running) (stop : after.stop = s.stop) (slots : after.slotsSem = s.slotsSem)
    (late : after.late = s.late) (served : serves stage = false) (other : ∀ task, s.stage t ≠ .acquireSlot task) : Stuck s after := by
  refine ⟨⟨running.trans old.stopped,?_,?_,slots.trans old.full⟩,late,?_⟩
  · rw [stop]
    exact old.begun
  · intro u
    rw [stages]
    by_cases equal : u = t
    · rw [equal,Function.update_self]
      exact served
    · rw [Function.update_of_ne equal]
      exact old.served u
  · intro u task here
    have differ : u ≠ t := by
      rintro rfl
      exact other task here
    rw [stages,Function.update_of_ne differ]
    exact here

theorem Jammed.step (old : Jammed s) (turn : Turns s t after) : Stuck s after ∧ after.stop = s.stop := by
  have clear : ∀ {p : Prop}, s.running = true → p := fun runs => by
    rw [old.stopped] at runs
    cases runs
  have idle : ∀ {p : Prop} {stage : Stage T}, s.stage t = stage → serves stage = true → p := fun here work => by
    have none := old.served t
    rw [here,work] at none
    cases none
  cases turn with
  | testRun _ runs => exact clear runs
  | testSlot _ _ runs => exact clear runs
  | testWork _ runs => exact clear runs
  | testItem _ _ runs => exact clear runs
  | dequeue _ here => exact idle here rfl
  | dequeued _ _ here => exact idle here rfl
  | missed _ here => exact idle here rfl
  | releaseSlot here => exact idle here rfl
  | acquireSlot _ some =>
    rw [old.full] at some
    exact absurd some (Nat.lt_irrefl 0)
  | refused here _ => exact ⟨old.turn rfl rfl rfl rfl rfl rfl (by simp [here]),rfl⟩
  | givenUp here _ => exact ⟨old.turn rfl rfl rfl rfl rfl rfl (by simp [here]),rfl⟩
  | enqueue _ here => exact ⟨old.turn rfl rfl rfl rfl rfl rfl (by simp [here]),rfl⟩
  | enqueued _ here => exact ⟨old.turn rfl rfl rfl rfl rfl rfl (by simp [here]),rfl⟩
  | releaseItem here => exact ⟨old.turn rfl rfl rfl rfl rfl rfl (by simp [here]),rfl⟩
  | acquireItem here _ => exact ⟨old.turn rfl rfl rfl rfl rfl rfl (by simp [here]),rfl⟩
  | returned here _ =>
    refine ⟨old.turn rfl rfl rfl rfl rfl rfl fun task waits => ?_,rfl⟩
    rcases here with here | here
    · rw [here] at waits
      cases waits
    · rw [here] at waits
      cases waits

theorem Jammed.next (old : Jammed s) (movedFrom : T → T) {label : Label T Tid} (able : s.allowed workers label = true) :
    Stuck s (s.apply k movedFrom workers label) ∧ ((∃ w ∈ workers, ∃ task, s.stage w = .acquireSlot task) → s.stop ≠ .joined →
      (s.apply k movedFrom workers label).stop ≠ .joined) := by
  cases label with
  | run t task =>
    have here := isUser_iff.mp able
    exact ⟨old.turn rfl rfl rfl rfl rfl rfl (by simp [here]),fun _ going => going⟩
  | finish t =>
    simp only [allowed,Bool.and_eq_true] at able
    have here := isUser_iff.mp able.1
    exact ⟨old.turn rfl rfl rfl rfl rfl rfl (by simp [here]),fun _ going => going⟩
  | step t spurious =>
    obtain ⟨stuck,same⟩ := old.step (step_turns (k := k) movedFrom spurious able)
    refine ⟨stuck,fun _ going => ?_⟩
    change (s.step k movedFrom t spurious).stop ≠ .joined
    rw [same]
    exact going
  | stop => exact absurd (by simpa [allowed] using able) old.begun
  | release =>
    cases waits : s.stop with
    | idle => exact absurd waits old.begun
    | joined => simp [allowed,waits] at able
    | releasing left =>
      cases left with
      | zero => simp [allowed,waits] at able
      | succ left =>
        simp only [apply,waits]
        exact ⟨⟨⟨old.stopped,fun absent => (by cases absent),old.served,old.full⟩,rfl,fun _ _ here => here⟩,
          fun _ _ absent => (by cases absent)⟩
  | join =>
    simp only [allowed,Bool.and_eq_true,decide_eq_true_eq] at able
    refine ⟨⟨⟨old.stopped,fun absent => (by cases absent),old.served,old.full⟩,rfl,fun _ _ here => here⟩,?_⟩
    rintro ⟨w,member,task,here⟩
    have back := isReturned_iff.mp (able.2 w member)
    rw [here] at back
    cases back

theorem Stuck.run {movedFrom : T → T} {initial : T} {middle final : StoppablePool T Tid} {labels : List (Label T Tid)}
    (old : Stuck s middle) (ran : (machine k movedFrom initial workers).run middle labels = some final) : Stuck s final ∧
    ((∃ w ∈ workers, ∃ task, s.stage w = .acquireSlot task) → middle.stop ≠ .joined → final.stop ≠ .joined) := by
  induction labels generalizing middle with
  | nil =>
    cases Option.some.inj ran
    exact ⟨old,fun _ going => going⟩
  | cons label rest ih =>
    obtain ⟨after,taken,ran⟩ := Machine.run_cons_parts ran
    obtain ⟨able,same⟩ := Machine.guarded_parts.mp taken
    obtain ⟨next,still⟩ := old.jammed.next (k := k) movedFrom able
    rw [same] at next still
    have stuck : Stuck s after :=
      ⟨next.jammed,next.late.trans old.late,fun t task here => next.slots t task (old.slots t task here)⟩
    obtain ⟨ended,going⟩ := ih stuck ran
    refine ⟨ended,fun waiting open_ => going waiting (still ?_ open_)⟩
    obtain ⟨w,member,task,here⟩ := waiting
    exact ⟨w,member,task,old.slots w task here⟩

-- When running_ is cleared, all slots are taken and no worker has a task in
-- hand, the callers that wait in run() wait for ever; and stop() does, too, when
-- the task of a worker is one of them.
theorem slots_never_come_back {movedFrom : T → T} {initial : T} {final : StoppablePool T Tid} {labels : List (Label T Tid)}
    (path : (machine k movedFrom initial workers).Reached s) (stopped : s.running = false)
    (served : ∀ w ∈ workers, serves (s.stage w) = false) (full : s.slotsSem = 0)
    (ran : (machine k movedFrom initial workers).run s labels = some final) :
    final.late = s.late ∧ (∀ t task, s.stage t = .acquireSlot task → final.stage t = .acquireSlot task) ∧
    (s.stop ≠ .joined → (∃ w ∈ workers, ∃ task, s.stage w = .acquireSlot task) → final.stop ≠ .joined) := by
  have old := (preserves k movedFrom initial workers).reached path
  have jammed : Jammed s := by
    refine ⟨stopped,fun idle => ?_,fun t => ?_,full⟩
    · rw [old.running.mpr idle] at stopped
      cases stopped
    · by_cases member : t ∈ workers
      · exact served t member
      · exact (outside_counts (old.inside t member)).2
  obtain ⟨stuck,going⟩ := Stuck.run ⟨jammed,rfl,fun _ _ here => here⟩ ran
  exact ⟨stuck.late,stuck.slots,fun open_ waiting => going waiting open_⟩

-- Two callers take the slots of a queue of two, a third one waits.
def threeCallers : List (Label Nat Nat) :=
  [.run 1 5,.step 1 false,.step 1 false,.run 2 6,.step 2 false,.step 2 false,.run 3 7,.step 3 false,.stop,.release,
    .step 0 false,.join]

theorem third_caller_stays : ∃ s final : StoppablePool Nat Nat, (machine 1 (fun _ => 0) 0 {0}).run (new 1 0 {0}) threeCallers = some s ∧
    (machine 1 (fun _ => 0) 0 {0}).run s [.step 1 false,.step 2 false] = some final ∧ s.stop = .joined ∧
    final.stage 3 = .acquireSlot 7 := by
  have found : ((machine 1 (fun _ => 0) 0 {0}).run (new 1 0 {0} : StoppablePool Nat Nat) threeCallers).map
      (fun s => (s.stage 3,s.stop,s.running,s.slotsSem,s.stage 0)) = some (.acquireSlot 7,.joined,false,0,.returned) := by decide +kernel
  have later : ((machine 1 (fun _ => 0) 0 {0}).run (new 1 0 {0} : StoppablePool Nat Nat)
      (threeCallers ++ [.step 1 false,.step 2 false])).isSome = true := by decide +kernel
  obtain ⟨s,ran,parts⟩ := Option.map_eq_some_iff.mp found
  simp only [Prod.mk.injEq] at parts
  obtain ⟨waits,joined,stopped,full,back⟩ := parts
  rw [Machine.run_append ran] at later
  obtain ⟨final,went⟩ := Option.isSome_iff_exists.mp later
  have path : (machine 1 (fun _ => 0) 0 {0}).Reached s := Machine.Reached.run (.start rfl) ran
  have served : ∀ w ∈ ({0} : Finset Nat), serves (s.stage w) = false := by
    intro w member
    rw [Finset.mem_singleton.mp member,back]
    rfl
  exact ⟨s,final,ran,went,joined,(slots_never_come_back path stopped served full went).2.1 3 7 waits⟩

end StoppablePool
end NewMuduo
