import NewMuduo.ThreadPoolTasks
import NewMuduo.Tally

namespace NewMuduo.ThreadPool
variable {T Tid : Type} {s after : ThreadPool T Tid} {w : Nat}
  {stage : Worker} {owner : Option (Agent Tid)} {active : Nat}

-- The workers that have not returned from runInThread.
def live (s : ThreadPool T Tid) : Nat := (List.range s.threads.length).countP fun w => s.worker w ≠ .returned

def Worker.begun : Worker → Bool
  | .unstarted | .starting => false
  | _ => true

-- activeThreads_ has everyone who ever began, gone or not.
def Counted (s : ThreadPool T Tid) : Prop := Tally Worker.begun s.worker s.activeThreads

def Staffed (s : ThreadPool T Tid) : Prop := s.running = true → ∀ w, s.worker w ≠ .returned

theorem Counted.le (counted : Counted s) (locked : Locked s) : s.activeThreads ≤ s.numThreads := by
  obtain ⟨agents,card,member⟩ := counted
  have inside : agents ⊆ Finset.range s.threads.length := by
    intro w here
    refine Finset.mem_range.mpr (locked.known w fun unstarted => ?_)
    have begun := (member w).mp here
    rw [unstarted] at begun
    cases begun
  have least := Finset.card_le_card inside
  rw [card,Finset.card_range,locked.crew] at least
  exact least

theorem WorkerMove.counts (move : WorkerMove s w cause stage owner active) :
    active = s.activeThreads + stage.begun.toNat - (s.worker w).begun.toNat := by
  cases move with
  | begin here => rw [here]; rfl
  | lock here _ => rcases here with here | here <;> (rw [here]; rfl)
  | stopped here | cached here | fetch here | relock here | ready here | block here | wait here | leave here
  | retry here | drained here | finish here | timeout here | spurious here => rw [here]; rfl

theorem Counted.started (model : Model) (numThreads : Nat) : Counted (start model numThreads : ThreadPool T Tid) := by
  refine Tally.none fun w => ?_
  unfold start
  dsimp only
  split <;> rfl

theorem Staffed.started (model : Model) (numThreads : Nat) : Staffed (start model numThreads : ThreadPool T Tid) := by
  intro _ w gone
  unfold start at gone
  dsimp only at gone
  split at gone <;> cases gone

variable [DecidableEq Tid]

theorem Counted.step (old : Counted s) (turn : Turns s cause after) : Counted after := by
  have goes : ∀ {others : Nat → Worker} {w stage}, Woken s.worker others → (s.worker w).begun = true → stage.begun = true →
      Tally Worker.begun (Function.update others w stage) s.activeThreads := by
    intro others w stage woken before now
    have woke := Tally.same old (woken.keeps Worker.begun rfl)
    have next := woke.update w stage
    rw [woken.keeps Worker.begun rfl,before,now] at next
    exact next
  cases turn with
  | none => exact old
  | worker w move =>
    unfold Counted
    dsimp only [moves]
    rw [move.counts]
    exact Tally.update old w _
  | call a move => exact old
  | take w task here found => exact goes (fun _ => .inl rfl) (by rw [here]; rfl) rfl
  | batch w n others calls here some least woken called =>
    exact goes woken (by rw [here]; rfl) (by split <;> rfl)
  | push a task others here running woken => exact Tally.same old (woken.keeps Worker.begun rfl)
  | stop idle running => exact old
  | notify_all here => exact Tally.same old ((Woken.all s.worker).keeps Worker.begun rfl)
  | join here all => exact old

omit [DecidableEq Tid] in
theorem WorkerMove.stays (move : WorkerMove s w cause stage owner active) (running : s.running = true)
    (few : s.activeThreads ≤ minThreads) : stage ≠ .returned := by
  cases move with
  | stopped _ stopped => cases running.symm.trans stopped
  | leave _ _ out =>
    rcases out with ⟨_,many⟩ | stopped
    · exact absurd many (Nat.not_lt.mpr few)
    · cases running.symm.trans stopped
  | _ => exact Worker.noConfusion

theorem Staffed.step (old : Staffed s) (bounded : Bounded s) (few : s.activeThreads ≤ minThreads) (turn : Turns s cause after) :
    Staffed after := by
  have moved : ∀ {others : Nat → Worker} {w stage}, s.running = true → Woken s.worker others → stage ≠ .returned →
      ∀ v, Function.update others w stage v ≠ .returned := by
    intro others w stage running woken stays
    exact (Function.forall_update_iff others fun _ stage => stage ≠ .returned).mpr
      ⟨stays,fun v _ gone => old running v (woken.was (by simp) gone)⟩
  have still : Woken s.worker s.worker := fun _ => .inl rfl
  intro running
  cases turn with
  | none => exact old running
  | worker w move => exact moved running still (move.stays running few)
  | call a move => exact old running
  | take w task here found => exact moved running still (by simp)
  | batch w n others calls here some least woken called =>
    refine moved running woken ?_
    have waits : s.queue ≠ [] := some.elim id fun fixed => bounded.filled w here fixed.1 fixed.2
    have positive := List.length_pos_of_ne_nil waits
    have low := (adapted_bounds bounded.least bounded.most).1
    unfold kMinBatchSize at low
    rw [if_neg (by omega)]
    exact Worker.noConfusion
  | push a task others here running woken => exact fun v gone => old running v (woken.was (by simp) gone)
  | stop idle running => cases running
  | notify_all here => exact fun v gone => old running v ((Woken.all s.worker).was (by simp) gone)
  | join here all => exact old running

-- The pool of no more than minThreads_ threads.
structure Small (s : ThreadPool T Tid) : Prop where
  valid : Valid s
  counted : Counted s
  staffed : Staffed s
  few : s.numThreads ≤ minThreads

theorem Turns.numThreads (turn : Turns s cause after) : after.numThreads = s.numThreads := by
  cases turn <;> rfl

theorem Small.step (old : Small s) (taken : machine.next s label = some after) : Small after := by
  have valid := ThreadPool.valid.step _ _ _ old.valid trivial taken
  have turn := next_turns old.valid.locked taken
  have few := Nat.le_trans (old.counted.le old.valid.locked) old.few
  refine ⟨valid,old.counted.step turn,old.staffed.step old.valid.bounded few turn,?_⟩
  rw [turn.numThreads]
  exact old.few

omit [DecidableEq Tid] in
theorem Small.floor (old : Small s) (running : s.running = true) : min s.numThreads minThreads ≤ s.live := by
  have everyone : s.live = s.threads.length := by
    unfold live
    rw [List.countP_eq_length.mpr fun w _ => decide_eq_true (old.staffed running w),List.length_range]
  rw [everyone,old.valid.locked.crew]
  exact Nat.min_le_left _ _

-- An idle worker goes through one wait that times out, and leaves.
def leaving (w : Nat) : List (Label T Tid) := List.replicate 4 (.worker w 0) ++ .timeout w :: List.replicate 2 (.worker w 0)

theorem leaves_one (cache : s.model = .CACHE) (running : s.running = true) (whole : s.aborted = false) (empty : s.queue = [])
    (free : s.mutex = none) (here : s.worker w = .testing) (used : (s.cache w).tasks.length ≤ (s.cache w).index)
    (many : minThreads < s.activeThreads) : machine.run s (leaving w) = some (s.moves w .returned) := by
  have unused : ¬(s.cache w).index < (s.cache w).tasks.length := Nat.not_lt.mpr used
  have waits : machine.run s (List.replicate 4 (.worker w 0)) = some (s.moves w .waiting) := by
    simp [List.replicate,Machine.run,machine,step,stepWorker,moves,leaves,running,whole,empty,free,here,unused]
  have returns : machine.run (s.moves w .waiting) (.timeout w :: List.replicate 2 (.worker w 0)) = some (s.moves w .returned) := by
    simp [List.replicate,Machine.run,machine,step,stepWorker,moves,leaves,fillLocalCache,cache,whole,empty,free,many]
  exact (Machine.run_append waits).trans returns

-- The first k of n workers have got as far as done.
def upTo (n k : Nat) (done left : Worker) (active : Nat) : ThreadPool T Tid := {start .CACHE n with
  worker := fun w => if w < k then done else if w < n then left else .unstarted
  activeThreads := active}

omit [DecidableEq Tid] in
theorem upTo_next {n k : Nat} (done left : Worker) (active : Nat) :
    (upTo n k done left active : ThreadPool T Tid).moves k done = upTo n (k + 1) done left active := by
  unfold upTo moves
  congr 1
  funext w
  rw [Function.update_apply]
  by_cases same : w = k
  · simp [same]
  · have near : w < k + 1 ↔ w < k := by omega
    simp only [if_neg same,near]

theorem all_begin (n k : Nat) (inside : k ≤ n) : machine.run (start .CACHE n : ThreadPool T Tid)
    ((List.range k).map (.worker · 0)) = some (upTo n k .testing .starting k) := by
  induction k with
  | zero => exact congrArg some (by simp [upTo,start])
  | succ k ih =>
    rw [List.range_succ,List.map_append,Machine.run_append (ih (Nat.le_of_succ_le inside)),← upTo_next]
    have starting : (upTo n k .testing .starting k : ThreadPool T Tid).worker k = .starting := by
      simp [upTo,Nat.lt_of_succ_le inside]
    simp only [List.map_cons,List.map_nil,Machine.run,machine,step,stepWorker,starting]
    rfl

theorem all_leave (n k : Nat) (many : minThreads < n) (inside : k ≤ n) :
    machine.run (upTo n 0 .returned .testing n : ThreadPool T Tid) ((List.range k).flatMap leaving) =
      some (upTo n k .returned .testing n) := by
  induction k with
  | zero => rfl
  | succ k ih =>
    rw [List.range_succ,List.flatMap_append,Machine.run_append (ih (Nat.le_of_succ_le inside)),← upTo_next,List.flatMap_singleton]
    refine leaves_one rfl rfl rfl rfl rfl ?_ (Nat.le_refl _) many
    simp [upTo,Nat.lt_of_succ_le inside]

-- A large pool without work loses every worker.
theorem nobody_left (n : Nat) (many : minThreads < n) : ∃ labels s,
    machine.run (start .CACHE n : ThreadPool T Tid) labels = some s ∧ s.running = true ∧ s.live = 0 := by
  have met : (upTo n n .testing .starting n : ThreadPool T Tid) = upTo n 0 .returned .testing n := by
    have workers : (fun w => if w < n then Worker.testing else if w < n then .starting else .unstarted) =
        fun w => if w < 0 then .returned else if w < n then .testing else .unstarted := by
      funext w
      by_cases below : w < n <;> simp [below]
    exact congrArg (fun worker => {start .CACHE n with worker := worker,activeThreads := n}) workers
  have ran := @all_begin T Tid _ n n (Nat.le_refl n)
  rw [met] at ran
  refine ⟨_,upTo n n .returned .testing n,(Machine.run_append ran).trans (all_leave n n many (Nat.le_refl n)),rfl,?_⟩
  refine List.countP_eq_zero.mpr fun w member => ?_
  have below : w < n := by simpa [upTo,start] using List.mem_range.mp member
  simp [upTo,below]

theorem same_crew {labels : List (Label T Tid)} (valid : Valid s) (ran : machine.run s labels = some after) :
    after.numThreads = s.numThreads := by
  induction labels generalizing s with
  | nil =>
    cases Option.some.inj ran
    rfl
  | cons label rest ih =>
    obtain ⟨middle,taken,ran⟩ := Machine.run_cons_parts ran
    exact (ih (ThreadPool.valid.step _ _ _ valid trivial taken) ran).trans (next_turns valid.locked taken).numThreads

theorem floor_iff_small (n : Nat) : (∀ labels s, machine.run (start .CACHE n : ThreadPool T Tid) labels = some s →
    s.running = true → min s.numThreads minThreads ≤ s.live) ↔ n ≤ minThreads := by
  constructor
  · intro floor
    by_contra many
    obtain ⟨labels,s,ran,running,none⟩ := @nobody_left T Tid _ n (Nat.lt_of_not_le many)
    have least := floor labels s ran running
    have crew : s.numThreads = n := (same_crew (.started _ n) ran).trans rfl
    rw [none,crew] at least
    unfold minThreads at least many
    omega
  · intro few labels s ran running
    have begun : Small (start .CACHE n : ThreadPool T Tid) :=
      ⟨.started _ n,.started _ n,.started _ n,few⟩
    exact (Machine.run_meets (fun _ _ _ old _ taken => old.step taken) begun (Machine.meets_labels fun _ _ _ => trivial) ran).floor
      running

-- Five workers time out, and the task that comes then has no worker.
def fiveLeave : List (Label Nat Unit) :=
  (List.range 5).map (.worker · 0) ++ (List.range 5).flatMap leaving ++
    [.run (.other ()) 7,.call (.other ()) 0 0,.call (.other ()) 0 0,.call (.other ()) 0 0]

theorem task_without_workers : ∃ s, machine.run (start .CACHE 5) fiveLeave = some s ∧ s.running = true ∧
    min s.numThreads minThreads = 4 ∧ s.live = 0 ∧ s.queue = [7] := by
  have ends : ((machine.run (start .CACHE 5) fiveLeave).map fun s => (s.running,min s.numThreads minThreads,s.live,s.queue)) =
      some (true,4,0,[7]) := by
    decide +kernel
  obtain ⟨s,ran,last⟩ := Option.map_eq_some_iff.mp ends
  simp only [Prod.mk.injEq] at last
  exact ⟨s,ran,last⟩

end NewMuduo.ThreadPool
