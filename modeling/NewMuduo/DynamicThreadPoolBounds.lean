import NewMuduo.DynamicThreadPoolCount
import Mathlib.Data.List.Chain

namespace NewMuduo.DynamicThreadPool
variable {T Tid : Type} {s after : DynamicThreadPool T Tid} {w : Nat} {a : Agent Tid}
  {stage : Worker} {owner : Option (Agent Tid)} {active : Nat → Int}

-- Tasks leave the queue as they came.
def Ordered (s : DynamicThreadPool T Tid) : Prop := s.pushed = s.taken.map Prod.snd ++ s.tasks

-- The expansions so far, the last of which is what the next one is held against.
structure Spaced (s : DynamicThreadPool T Tid) : Prop where
  apart : s.expanded.IsChain fun earlier later => s.config.expandCooldown * sec ≤ later - earlier
  last : ∀ time, s.expanded.getLast? = some time → time = s.lastExpandTime

-- What a worker relies on from its checks under queueMutex_ to threads_--.
def Due (s : DynamicThreadPool T Tid) : Worker → Prop
  | .reading why => s.config.minThreads < s.threads ∧ (why = .exit → s.tasks = [])
  | .writing why read => s.config.minThreads < read ∧ (why = .exit → s.tasks = []) ∧ read ≤ s.threads
  | _ => True

-- How far the constructor has come towards minThreads; what it has read of
-- threads_ may be out of date by workers that have left since.
def Filled (s : DynamicThreadPool T Tid) : Constructor → Prop
  | .reading i => s.threads ≤ i ∧ (i ≤ s.threads ∨ s.config.minThreads ≤ s.threads)
  | .writing i read => read ≤ i ∧ (i ≤ read ∨ s.config.minThreads ≤ read) ∧ s.threads ≤ read
  | .finished => s.config.minThreads ≤ s.threads

structure Bounded (s : DynamicThreadPool T Tid) : Prop where
  locked : Locked s
  lifetime : Lifetime s
  running : s.stop = false
  due : ∀ w, Due s (s.worker w)
  filled : Filled s s.constructor
  most : s.threads ≤ s.config.maxThreads

-- tryShrink may count a worker out that stays, and resize, which does threads_++
-- without queueMutex_, may undo the threads_-- of one that leaves meanwhile: then
-- fewer workers are left than threads_ says.
def Covered (s : DynamicThreadPool T Tid) : Prop := ∃ n, Tally Worker.inLoop s.worker n ∧ s.threads ≤ n

theorem Due.of_free (free : stage.holds = false) : Due s stage := by
  cases stage with
  | reading _ => cases free
  | writing _ _ => cases free
  | _ => trivial

variable [DecidableEq Tid]

theorem Turns.config {label : Label T Tid} (turn : Turns s label after) : after.config = s.config := by
  cases turn with
  | decrement w read why here => cases why <;> rfl
  | _ => rfl

theorem Ordered.step {label : Label T Tid} (old : Ordered s) (turn : Turns s label after) : Ordered after := by
  unfold Ordered at old ⊢
  cases turn with
  | take w entry rest here found =>
    have moved : s.taken.map Prod.snd ++ s.tasks = (s.taken ++ [(w,entry)]).map Prod.snd ++ rest := by
      simp [found]
    exact old.trans moved
  | push a entry here =>
    have longer : s.pushed ++ [entry] = s.taken.map Prod.snd ++ s.tasks ++ [entry] := congrArg (· ++ [entry]) old
    exact longer.trans (List.append_assoc _ _ _)
  | decrement w read why here => cases why <;> exact old
  | _ => exact old

theorem Spaced.step {label : Label T Tid} (old : Spaced s) (turn : Turns s label after) : Spaced after := by
  cases turn with
  | expand a now here able =>
    obtain ⟨_,cooled,_⟩ := able
    refine ⟨List.isChain_append.mpr ⟨old.apart,List.isChain_singleton now,?_⟩,?_⟩
    · intro earlier last later first
      cases first
      rw [old.last earlier last]
      exact cooled
    · intro time last
      exact Option.some.inj (last.symm.trans List.getLast?_concat)
  | decrement w read why here => cases why <;> exact ⟨old.apart,old.last⟩
  | _ => exact ⟨old.apart,old.last⟩

omit [DecidableEq Tid] in
theorem Locked.others_free (locked : Locked s) (holds : (s.worker w).holds = true) {v : Nat} (apart : v ≠ w) :
    (s.worker v).holds = false := by
  refine Bool.of_not_eq_true fun both => apart ?_
  exact Holding.unique locked.workers worker_injective both holds

omit [DecidableEq Tid] in
theorem Locked.workers_free (locked : Locked s) (calls : (s.submit a).holds = true) (v : Nat) : (s.worker v).holds = false :=
  Bool.of_not_eq_true fun both => locked.apart calls both

theorem Turns.finished {label : Label T Tid} (turn : Turns s label after) (built : s.constructor = .finished) :
    after.constructor = .finished := by
  cases turn with
  | count i here _ => cases here.symm.trans built
  | built i here _ => rfl
  | resize i read here => cases here.symm.trans built
  | decrement w read why here => cases why <;> exact built
  | _ => exact built

omit [DecidableEq Tid] in
-- The constructor has read fewer threads than it is to make.
theorem Bounded.room (old : Bounded s) {i read : Nat} (here : s.constructor = .writing i read) :
    read + 1 ≤ s.config.maxThreads ∧ incremented read = read + 1 := by
  have building := old.lifetime.building
  have filled := old.filled
  rw [here] at building filled
  obtain ⟨_,more,_⟩ := building
  obtain ⟨_,below,small⟩ := old.lifetime.accepted
  have few := filled.1
  exact ⟨by omega,incremented_small (by omega)⟩

omit [DecidableEq Tid] in
-- A worker counts itself out from a value above minThreads.
theorem Bounded.decremented (old : Bounded s) {read : Nat} {why : Decrement} (here : s.worker w = .writing why read) :
    decremented read = read - 1 ∧ s.config.minThreads ≤ read - 1 ∧ read ≤ s.threads ∧ (why = .exit → s.tasks = []) := by
  have due := old.due w
  rw [here] at due
  obtain ⟨many,empty,current⟩ := due
  have narrow := old.lifetime.narrow
  exact ⟨decremented_some (Nat.zero_lt_of_lt many) (Nat.lt_of_le_of_lt current narrow),Nat.le_sub_one_of_lt many,current,empty⟩

theorem Bounded.due_step {label : Label T Tid} (old : Bounded s) (turn : Turns s label after) :
    ∀ v, Due after (after.worker v) := by
  have woken : ∀ {others : Nat → Worker}, Woken s.worker others → ∀ v, Due s (others v) := by
    intro others woken v
    rcases woken v with equal | ⟨_,woke⟩
    · rw [equal]
      exact old.due v
    · rw [woke]
      trivial
  cases turn with
  | worker w move =>
    refine (Function.forall_update_iff s.worker fun _ stage => Due s stage).mpr ⟨?_,fun v _ => old.due v⟩
    cases move with
    | stopped here stop empty => cases old.running.symm.trans stop
    | tired here running empty many late => exact ⟨many,fun _ => empty⟩
    | shrink now here able => exact ⟨able.1,fun absent => (by cases absent)⟩
    | read why here =>
      have due := old.due w
      rw [here] at due
      exact ⟨due.1,due.2,Nat.le_refl _⟩
    | _ => trivial
  | take w entry rest here found =>
    have holds : (s.worker w).holds = true := by rcases here with ⟨here,_⟩ | here <;> (rw [here]; rfl)
    refine (Function.forall_update_iff s.worker fun _ stage => Due _ stage).mpr ⟨?_,fun v other => ?_⟩
    · exact Due.of_free (by split <;> rfl)
    · exact Due.of_free (old.locked.others_free holds other)
  | decrement w read why here =>
    have holds : (s.worker w).holds = true := by rw [here]; rfl
    cases why with
    | exit =>
      refine (Function.forall_update_iff s.worker fun _ stage => Due _ stage).mpr ⟨trivial,fun v other => ?_⟩
      exact Due.of_free (old.locked.others_free holds other)
    | shrink now =>
      refine (Function.forall_update_iff s.worker fun _ stage => Due _ stage).mpr ⟨trivial,fun v other => ?_⟩
      exact Due.of_free (old.locked.others_free holds other)
  | resize i read here =>
    have filled := old.filled
    rw [here] at filled
    have grown : s.threads ≤ incremented read := by
      rw [(old.room here).2]
      exact Nat.le_succ_of_le filled.2.2
    refine (Function.forall_update_iff s.worker fun _ stage => Due _ stage).mpr ⟨trivial,fun v _ => ?_⟩
    have due := old.due v
    cases there : s.worker v with
    | reading why =>
      rw [there] at due
      exact ⟨Nat.lt_of_lt_of_le due.1 grown,due.2⟩
    | writing why read =>
      rw [there] at due
      exact ⟨due.1,due.2.1,Nat.le_trans due.2.2 grown⟩
    | _ => trivial
  | notify a others here woke => exact woken woke
  | notify_all here => exact woken (Woken.all s.worker)
  | push a entry here =>
    have holds : (s.submit a).holds = true := by rw [here]; rfl
    exact fun v => Due.of_free (old.locked.workers_free holds v)
  | expand a now here able =>
    have holds : (s.submit a).holds = true := by rw [here]; rfl
    refine (Function.forall_update_iff s.worker fun _ stage => Due _ stage).mpr ⟨trivial,fun v _ => ?_⟩
    exact Due.of_free (old.locked.workers_free holds v)
  | _ => exact old.due

theorem Bounded.covered_step {label : Label T Tid} (old : Bounded s) (built : s.constructor = .finished) (covered : Covered s)
    (turn : Turns s label after) : Covered after := by
  obtain ⟨n,counted,below⟩ := covered
  have moved : ∀ {w stage}, (s.worker w).inLoop = true → stage.inLoop = true → Tally Worker.inLoop (Function.update s.worker w stage) n := by
    intro w stage before now
    have next := counted.update w stage
    rw [before,now] at next
    exact next
  cases turn with
  | worker w move => exact ⟨n,moved move.inLoop.1 move.inLoop.2,below⟩
  | take w entry rest here found =>
    refine ⟨n,moved ?_ ?_,below⟩
    · rcases here with ⟨here,_⟩ | here <;> (rw [here]; rfl)
    · split <;> rfl
  | resize i read here => cases here.symm.trans built
  | decrement w read why here =>
    obtain ⟨less,_,current,_⟩ := old.decremented here
    have fewer : read ≤ n := Nat.le_trans current below
    cases why with
    | exit =>
      have next := counted.update w .left
      rw [here] at next
      refine ⟨n - 1,next,?_⟩
      dsimp only [decrement,moves]
      rw [less]
      exact Nat.sub_le_sub_right fewer 1
    | shrink now =>
      refine ⟨n,moved (by rw [here]; rfl) rfl,?_⟩
      dsimp only [decrement,moves]
      rw [less]
      exact Nat.le_trans (Nat.sub_le _ _) fewer
  | notify a others here woken => exact ⟨n,counted.same (woken.keeps Worker.inLoop rfl),below⟩
  | notify_all here => exact ⟨n,counted.same ((Woken.all s.worker).keeps Worker.inLoop rfl),below⟩
  | expand a now here able =>
    obtain ⟨_,_,most⟩ := old.lifetime.accepted
    refine ⟨n + 1,old.locked.spawn_counted counted,?_⟩
    dsimp only [returns,answers,expand]
    rw [incremented_small (Nat.lt_of_le_of_lt able.1 most)]
    exact Nat.succ_le_succ below
  | _ => exact ⟨n,counted,below⟩

omit [DecidableEq Tid] in
-- A worker less, but not below minThreads.
theorem Filled.lower {constructor : Constructor} (old : Filled s constructor) (config : after.config = s.config)
    (fewer : after.threads ≤ s.threads) (enough : s.config.minThreads ≤ after.threads) : Filled after constructor := by
  cases constructor with
  | reading i => exact ⟨Nat.le_trans fewer old.1,.inr (config ▸ enough)⟩
  | writing i read => exact ⟨old.1,config ▸ old.2.1,Nat.le_trans fewer old.2.2⟩
  | finished =>
    unfold Filled
    rw [config]
    exact enough

theorem Bounded.threads_step {label : Label T Tid} (old : Bounded s) (turn : Turns s label after) :
    Filled after after.constructor ∧ after.threads ≤ after.config.maxThreads := by
  have filled := old.filled
  have most := old.most
  cases turn with
  | count i here more =>
    rw [here] at filled
    exact ⟨⟨filled.1,filled.2,Nat.le_refl _⟩,most⟩
  | built i here all =>
    rw [here] at filled
    obtain ⟨below,_,_⟩ := old.lifetime.accepted
    exact ⟨filled.2.elim (fun far => Nat.le_trans below (Nat.le_trans all far)) id,most⟩
  | resize i read here =>
    obtain ⟨room,more⟩ := old.room here
    rw [here] at filled
    dsimp only [Filled]
    rw [more]
    exact ⟨⟨Nat.succ_le_succ filled.1,filled.2.1.imp Nat.succ_le_succ Nat.le_succ_of_le⟩,room⟩
  | decrement w read why here =>
    obtain ⟨less,enough,current,_⟩ := old.decremented here
    have fewer : DynamicThreadPool.decremented read ≤ s.threads := by
      rw [less]
      exact Nat.le_trans (Nat.sub_le _ _) current
    rw [← less] at enough
    cases why <;> exact ⟨filled.lower rfl fewer enough,Nat.le_trans fewer most⟩
  | expand a now here able =>
    obtain ⟨_,_,small⟩ := old.lifetime.accepted
    have more : incremented s.threads = s.threads + 1 := incremented_small (Nat.lt_of_le_of_lt able.1 small)
    have busy : (s.submit a).isIdle = false := by rw [here]; rfl
    have built := old.lifetime.finished busy
    rw [built] at filled
    dsimp only [returns,answers,expand,DynamicThreadPool.spawn,moves]
    rw [more,built]
    exact ⟨Nat.le_succ_of_le filled,able.1⟩
  | _ => exact ⟨filled,most⟩

theorem Bounded.step {label : Label T Tid} (old : Bounded s) (taken : machine.next s label = some after)
    (before : after.stopAll = .idle) : Bounded after := by
  have turn : Turns s label after := step_turns taken
  have running : after.stop = false := by
    cases turn with
    | stop _ _ => cases before
    | decrement w read why here => cases why <;> exact old.running
    | _ => exact old.running
  obtain ⟨filled,most⟩ := old.threads_step turn
  exact ⟨old.locked.step turn,old.lifetime.step turn,running,old.due_step turn,filled,most⟩

theorem Bounded.leaves {label : Label T Tid} (old : Bounded s) (covered : Covered after) (turn : Turns s label after)
    (here : (s.worker w).inLoop = true) (gone : (after.worker w).inLoop = false) :
    after.tasks = [] ∧ ∃ n, Tally Worker.inLoop after.worker n ∧ s.config.minThreads ≤ n := by
  have stays : ∀ {v stage}, stage.inLoop = true → (Function.update s.worker v stage w).inLoop = false → False := by
    intro v stage inside out
    by_cases same : w = v
    · rw [same,Function.update_self,inside] at out
      cases out
    · rw [Function.update_of_ne same,here] at out
      cases out
  have sleeps : ∀ {others : Nat → Worker}, Woken s.worker others → (others w).inLoop = false → False := by
    intro others woken out
    rw [woken.keeps Worker.inLoop rfl w,here] at out
    cases out
  cases turn with
  | worker v move => exact (stays move.inLoop.2 gone).elim
  | take v entry rest _ found => exact (stays (by split <;> rfl) gone).elim
  | resize i read _ => exact (stays rfl gone).elim
  | expand a now _ able => exact (stays rfl gone).elim
  | notify a others _ woken => exact (sleeps woken gone).elim
  | notify_all _ => exact (sleeps (Woken.all s.worker) gone).elim
  | decrement v read why writing =>
    cases why with
    | shrink now => exact (stays rfl gone).elim
    | exit =>
      obtain ⟨less,enough,_,empty⟩ := old.decremented writing
      obtain ⟨n,counted,below⟩ := covered
      refine ⟨empty rfl,n,counted,Nat.le_trans ?_ below⟩
      dsimp only [decrement,moves]
      rw [less]
      exact enough
  | _ => cases here.symm.trans gone

omit [DecidableEq Tid] in
theorem Bounded.started (config : Config) (clock : Int) (accepted : config.accepted) :
    Bounded (start config clock : DynamicThreadPool T Tid) :=
  ⟨.started config clock,.started config clock accepted,rfl,fun _ => trivial,⟨Nat.le_refl 0,.inl (Nat.le_refl 0)⟩,Nat.zero_le _⟩

-- A run up to stopAll() is one of steps that keep it.
theorem bounded_of_run {config : Config} {clock : Int} {labels : List (Label T Tid)} (accepted : config.accepted)
    (ran : machine.run (start config clock) labels = some s) (before : s.stopAll = .idle) : Bounded s := by
  have kept : ∀ (s : DynamicThreadPool T Tid) label after, (s.stopAll = .idle → Bounded s) → True →
      machine.next s label = some after → after.stopAll = .idle → Bounded after := by
    intro s label after old _ taken idle
    have turn : Turns s label after := step_turns taken
    exact (old (turn.idle_before idle)).step taken idle
  exact Machine.run_meets kept (fun _ => .started config clock accepted) (Machine.meets_labels fun _ _ _ => trivial) ran before

theorem covered_of_run {pool : DynamicThreadPool T Tid} {labels : List (Label T Tid)} (finished : pool.constructor = .finished)
    (covered : Covered pool) (bounded : pool.stopAll = .idle → Bounded pool) (ran : machine.run pool labels = some s) (before : s.stopAll = .idle) :
    s.constructor = .finished ∧ Covered s := by
  have kept : ∀ (s : DynamicThreadPool T Tid) label after, (s.stopAll = .idle → Bounded s ∧ s.constructor = .finished ∧ Covered s) →
      True → machine.next s label = some after → after.stopAll = .idle →
      Bounded after ∧ after.constructor = .finished ∧ Covered after := by
    intro s label after old _ taken idle
    have turn : Turns s label after := step_turns taken
    obtain ⟨bounded,built,covered⟩ := old (turn.idle_before idle)
    exact ⟨bounded.step taken idle,turn.finished built,bounded.covered_step built covered turn⟩
  exact (Machine.run_meets kept (fun idle => ⟨bounded idle,finished,covered⟩) (Machine.meets_labels fun _ _ _ => trivial)
    ran before).2

theorem run_ordered {config : Config} {clock : Int} {labels : List (Label T Tid)}
    (ran : machine.run (start config clock) labels = some s) : s.config = config ∧ Ordered s ∧ Spaced s := by
  have kept : ∀ (s : DynamicThreadPool T Tid) label after, (s.config = config ∧ Ordered s ∧ Spaced s) → True →
      machine.next s label = some after → after.config = config ∧ Ordered after ∧ Spaced after := by
    intro s label after old _ taken
    have turn : Turns s label after := step_turns taken
    exact ⟨turn.config.trans old.1,old.2.1.step turn,old.2.2.step turn⟩
  have spaced : Spaced (start config clock : DynamicThreadPool T Tid) := ⟨.nil,fun _ absent => (by cases absent)⟩
  have ordered : Ordered (start config clock : DynamicThreadPool T Tid) := rfl
  have whole := Machine.run_meets kept ⟨rfl,ordered,spaced⟩ (Machine.meets_labels fun _ _ _ => trivial) ran
  exact whole

theorem finished_of_run {pool : DynamicThreadPool T Tid} {labels : List (Label T Tid)} (finished : pool.constructor = .finished)
    (ran : machine.run pool labels = some s) : s.constructor = .finished := by
  have kept : ∀ (s : DynamicThreadPool T Tid) label after, s.constructor = .finished → True → machine.next s label = some after →
      after.constructor = .finished := fun _ _ _ old _ taken => (step_turns taken).finished old
  have last := Machine.run_meets kept finished (Machine.meets_labels fun _ _ _ => trivial) ran
  exact last

-- From the end of the constructor to stopAll() the bounds, the order of the tasks
-- and the cooldown hold in every run. minThreads workers stay if the constructor
-- has left no more in threads_ than there are workers.
theorem bounds_order_and_workers {config : Config} {clock : Int} {construction labels : List (Label T Tid)}
    {pool : DynamicThreadPool T Tid} (accepted : config.accepted)
    (built : machine.run (start config clock) construction = some pool) (finished : pool.constructor = .finished)
    (ran : machine.run pool labels = some s) (before : s.stopAll = .idle) :
    (config.minThreads ≤ s.threads ∧ s.threads ≤ config.maxThreads) ∧
    s.pushed = s.taken.map Prod.snd ++ s.tasks ∧
    (Covered pool → ∀ label after w, machine.next s label = some after → (s.worker w).inLoop = true →
      (after.worker w).inLoop = false →
      after.tasks = [] ∧ ∃ n, Tally Worker.inLoop after.worker n ∧ config.minThreads ≤ n) ∧
    s.expanded.IsChain fun earlier later => config.expandCooldown * sec ≤ later - earlier := by
  have whole := (Machine.run_append built).trans ran
  have bounded := bounded_of_run accepted whole before
  have ready := finished_of_run finished ran
  obtain ⟨rfl,ordered,spaced⟩ := run_ordered whole
  refine ⟨?_,ordered,?_,spaced.apart⟩
  · have filled := bounded.filled
    rw [ready] at filled
    exact ⟨filled,bounded.most⟩
  · intro enough label after w taken here gone
    have turn : Turns s label after := step_turns taken
    have covered := (covered_of_run finished enough (bounded_of_run accepted built) ran before).2
    exact bounded.leaves (bounded.covered_step ready covered turn) turn here gone

-- A thread submits a task, and the one worker takes it.
def firstTask : List (Label Nat Unit) :=
  [.submit (.other ()) (some 7),.call (.other ()) 0,.call (.other ()) 0] ++ List.replicate 3 (.worker 0)

-- A worker times out, finds the queue empty and leaves.
def leaves (w : Nat) : List (Label Nat Unit) := List.replicate 3 (.worker w) ++ [.wake w] ++ List.replicate 4 (.worker w)

-- Two workers, of which the second leaves once the first has its task.
theorem first_task_bounds : ∃ pool s last, machine.run (start {minThreads := 1,maxThreads := 2,initialThreads := 2,idleTimeout := 0} 0)
      (List.replicate 5 .construct) = some pool ∧ machine.run pool (firstTask ++ (leaves 1).dropLast) = some s ∧
    1 ≤ s.threads ∧ s.threads ≤ 2 ∧ s.taken.map Prod.snd ++ s.tasks = s.pushed ∧ s.pushed ≠ [] ∧
    machine.next s (.worker 1) = some last ∧ last.tasks = [] ∧ ∃ n, Tally Worker.inLoop last.worker n ∧ 1 ≤ n := by
  have accepted : Config.accepted {minThreads := 1,maxThreads := 2,initialThreads := 2,idleTimeout := 0} :=
    ⟨Nat.le_succ 1,Nat.le_refl 2,by decide⟩
  have built : machine.run (start {minThreads := 1,maxThreads := 2,initialThreads := 2,idleTimeout := 0} 0 : DynamicThreadPool Nat Unit)
      (List.replicate 5 .construct) = some _ := rfl
  have nobody : Tally Worker.inLoop (fun _ : Nat => Worker.unspawned) 0 := Tally.none fun _ => rfl
  obtain ⟨bounds,ordered,workers,_⟩ := bounds_order_and_workers accepted built rfl
    (show machine.run _ (firstTask ++ (leaves 1).dropLast) = some _ from rfl) rfl
  have covered := (nobody.update 0 .starting).update 1 .starting
  obtain ⟨empty,enough⟩ := workers ⟨_,covered,by decide⟩ (.worker 1) _ 1 rfl rfl rfl
  exact ⟨_,_,_,built,rfl,bounds.1,bounds.2,ordered.symm,List.cons_ne_nil _ _,rfl,empty,enough⟩

-- The first worker leaves while resize is between its read and its write of
-- threads_, so three are counted and two are there, who both may leave.
theorem miscounted_workers_leave : ∃ pool s last,
    machine.run (start {minThreads := 1,maxThreads := 3,initialThreads := 3,idleTimeout := 0} 0)
      (List.replicate 5 .construct ++ leaves 0 ++ List.replicate 2 .construct) = some pool ∧
    pool.constructor = .finished ∧ pool.threads = 3 ∧ Tally Worker.inLoop pool.worker 2 ∧
    machine.run pool (leaves 1 ++ (leaves 2).dropLast) = some s ∧ machine.next s (.worker 2) = some last ∧
    (s.worker 2).inLoop = true ∧ (last.worker 2).inLoop = false ∧ last.stopAll = .idle ∧ last.threads = 1 ∧
    ∀ w, (last.worker w).inLoop = false := by
  have nobody : Tally Worker.inLoop (fun _ : Nat => Worker.unspawned) 0 := Tally.none fun _ => rfl
  refine ⟨_,_,_,rfl,rfl,rfl,?_,rfl,rfl,rfl,rfl,rfl,rfl,?_⟩
  · refine ((nobody.update 1 .starting).update 2 .starting).same fun w => ?_
    match w with
    | 0 | 1 | 2 => rfl
    | _ + 3 => rfl
  · intro w
    match w with
    | 0 | 1 | 2 => rfl
    | _ + 3 => rfl

end NewMuduo.DynamicThreadPool
