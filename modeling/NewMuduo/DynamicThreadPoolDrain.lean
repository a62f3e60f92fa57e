import NewMuduo.DynamicThreadPoolStop
import NewMuduo.DynamicThreadPoolBounds

namespace NewMuduo.DynamicThreadPool
variable {T Tid : Type} {s after : DynamicThreadPool T Tid} {w : Nat} {a : Agent Tid}
  {stage : Worker} {owner : Option (Agent Tid)} {active : Nat → Int}

-- In workerLoop and not on the way out of it.
def Worker.serves (stage : Worker) : Bool := stage.inLoop && !stage.exits

def Served (s : DynamicThreadPool T Tid) : Prop := ∃ w, (s.worker w).serves = true

-- With a worker to spare, a worker on its way out leaves others behind. Once
-- stop_ is set, a worker goes only while the queue is empty, and only a task
-- that runs can fill it again.
structure Attended (s : DynamicThreadPool T Tid) : Prop where
  counting : Counting s
  least : 0 < s.config.minThreads
  served : Bounded s ∨ Stopped s ∧ (s.tasks ≠ [] → Served s)

theorem Worker.holds_of_exits (exits : stage.exits = true) : stage.holds = true := by
  cases stage with
  | reading _ | writing _ _ => rfl
  | _ => cases exits

theorem Due.spare (due : Due s stage) (exits : stage.exits = true) : s.config.minThreads < s.threads := by
  cases stage with
  | reading why => exact due.1
  | writing why read => exact Nat.lt_of_lt_of_le due.1 due.2.2
  | _ => cases exits

theorem Bounded.attended (old : Bounded s) (counted : Tally Worker.inLoop s.worker s.threads) (built : s.constructor = .finished)
    (least : 0 < s.config.minThreads) : Served s := by
  by_cases exiting : ∃ v, (s.worker v).exits = true
  · obtain ⟨v,exits⟩ := exiting
    have holds := Worker.holds_of_exits exits
    have spare := (old.due v).spare exits
    obtain ⟨w,apart,here⟩ := counted.another (Nat.lt_of_le_of_lt least spare) v
    have stays : (s.worker w).exits = false := by
      refine Bool.of_not_eq_true fun goes => ?_
      have free := old.locked.others_free holds apart
      rw [Worker.holds_of_exits goes] at free
      cases free
    exact ⟨w,by rw [Worker.serves,here,stays]; rfl⟩
  · have filled := old.filled
    rw [built] at filled
    have some : s.threads ≠ 0 := Nat.ne_of_gt (Nat.lt_of_lt_of_le least filled)
    by_contra none
    refine some (counted.eq_zero_iff.mpr fun w => ?_)
    refine Bool.of_not_eq_true fun here => none ⟨w,?_⟩
    have stays : (s.worker w).exits = false := Bool.of_not_eq_true fun exits => exiting ⟨w,exits⟩
    rw [Worker.serves,here,stays]
    rfl

theorem Served.moves (old : Served s) (goes : (s.worker w).serves = true → stage.serves = true) :
    ∃ v, (Function.update s.worker w stage v).serves = true := by
  obtain ⟨v,serves⟩ := old
  refine ⟨v,?_⟩
  by_cases same : v = w
  · rw [same,Function.update_self]
    exact goes (same ▸ serves)
  · rw [Function.update_of_ne same]
    exact serves

theorem Served.wakes (old : Served s) {others : Nat → Worker} (woken : Woken s.worker others) : ∃ v, (others v).serves = true := by
  obtain ⟨v,serves⟩ := old
  exact ⟨v,(woken.keeps Worker.serves rfl v).trans serves⟩

theorem WorkerMove.serves (move : WorkerMove s w stage owner active) (more : s.tasks ≠ []) (here : (s.worker w).serves = true) :
    stage.serves = true := by
  cases move with
  | stopped _ _ empty | tired _ _ empty => exact absurd empty more
  | read why leaves =>
    rw [leaves] at here
    cases why with
    | exit => cases here
    | shrink _ => rfl
  | _ => rfl

variable [DecidableEq Tid]

theorem Bounded.goes_on {label : Label T Tid} (old : Bounded s) (turn : Turns s label after) (running : after.stop = false) :
    Bounded after := by
  obtain ⟨filled,most⟩ := old.threads_step turn
  exact ⟨old.locked.step turn,old.lifetime.step turn,running,old.due_step turn,filled,most⟩

-- Only a worker's own task submits now, and that worker comes back to the queue.
theorem Stopped.served {label : Label T Tid} (old : Stopped s) (paired : Paired s label) (turn : Turns s label after)
    (served : s.tasks ≠ [] → Served s) (more : after.tasks ≠ []) : Served after := by
  cases turn with
  | worker w move => exact (served more).moves (move.serves more)
  | take w entry rest here found => exact ⟨w,by dsimp only [moves]; rw [Function.update_self]; split <;> rfl⟩
  | resize i read here => exact (served more).moves fun _ => rfl
  | decrement w read why here =>
    obtain ⟨rfl,_⟩ := paired why read here
    refine (served more).moves fun serves => ?_
    rw [here] at serves
    cases serves
  | push a entry here =>
    obtain ⟨w,_,running⟩ := old.inside (a := a) (by rw [here]; rfl)
    exact ⟨w,by dsimp only [answers]; rw [running]; rfl⟩
  | notify a others here woken => exact (served more).wakes woken
  | notify_all here => exact (served more).wakes (Woken.all s.worker)
  | expand a now here able => exact (served more).moves fun _ => rfl
  | _ => exact served more

theorem Attended.step {label : Label T Tid} (old : Attended s) (paired : Paired s label)
    (taken : machine.next s label = some after) : Attended after := by
  have turn : Turns s label after := step_turns taken
  have counting := old.counting.step paired taken
  refine ⟨counting,turn.config ▸ old.least,?_⟩
  rcases old.served with bounded | ⟨stopped,served⟩
  · cases stop : after.stop with
    | false => exact .inl (bounded.goes_on turn stop)
    | true =>
      refine .inr ?_
      cases turn with
      | stop here free =>
        obtain ⟨_,built⟩ := old.counting.lifetime.closed.resolve_left (by simp [here])
        have served : Served s := bounded.attended old.counting.balanced.counted built old.least
        exact ⟨⟨counting.locked,counting.lifetime,fun absent => (by cases absent),rfl⟩,fun _ => served⟩
      | decrement w read why here => cases why <;> cases bounded.running.symm.trans stop
      | _ => cases bounded.running.symm.trans stop
  · exact .inr ⟨stopped.step taken,stopped.served paired turn served⟩

omit [DecidableEq Tid] in
theorem Attended.drained (old : Attended s) (gone : s.stopAll = .returned) (stop : s.stop = true) : s.tasks = [] := by
  rcases old.served with bounded | ⟨_,served⟩
  · cases bounded.running.symm.trans stop
  · by_contra more
    obtain ⟨w,serves⟩ := served more
    rw [Worker.serves,old.counting.balanced.alone gone w] at serves
    cases serves

-- Where every change of threads_ goes with a start or a return and minThreads is
-- not 0, stopAll() returns to a pool that has handed out every task, in order,
-- and whose workers have all come back from theirs.
theorem drained_when_stopped {config : Config} {clock : Int} {labels : List (Label T Tid)} (accepted : config.accepted)
    (least : 0 < config.minThreads) (paired : machine.Meets Paired (start config clock) labels)
    (ran : machine.run (start config clock) labels = some s) (gone : s.stopAll = .returned) :
    s.tasks = [] ∧ s.taken.map Prod.snd = s.pushed ∧ (∀ w, (s.worker w).inLoop = false) ∧ ∀ a, (s.submit a).isIdle = true := by
  have path : machine.Reached (start config clock : DynamicThreadPool T Tid) := .start ⟨config,clock,accepted,rfl⟩
  have accounted := Accounted.preserves.reached (path.run ran)
  have stop : s.stop = true := by simpa [gone] using accounted.stop
  have begun : Attended (start config clock : DynamicThreadPool T Tid) :=
    ⟨.started config clock accepted,least,.inl (.started config clock accepted)⟩
  have attended : Attended s := Machine.run_meets (fun _ _ _ old paired taken => old.step paired taken) begun paired ran
  have empty := attended.drained gone stop
  have ordered := (run_ordered ran).2.1
  unfold Ordered at ordered
  rw [empty,List.append_nil] at ordered
  exact ⟨empty,ordered.symm,attended.counting.balanced.alone gone,(attended.counting.returned gone).2⟩

-- Whether a step is paired can be evaluated.
def Worker.pairs (threads : Nat) : Worker → Bool
  | .writing .exit read => read == threads
  | .writing (.shrink _) _ => false
  | _ => true

def Constructor.pairs (threads : Nat) : Constructor → Bool
  | .writing _ read => read == threads
  | _ => true

theorem Worker.pairs_iff {stage : Worker} {threads : Nat} :
    stage.pairs threads = true ↔ ∀ why read, stage = .writing why read → why = .exit ∧ read = threads := by
  cases stage with
  | writing why read => cases why <;> simp [Worker.pairs]
  | _ => simp [Worker.pairs]

theorem Constructor.pairs_iff {place : Constructor} {threads : Nat} :
    place.pairs threads = true ↔ ∀ i read, place = .writing i read → read = threads := by
  cases place with
  | writing i read => simp [Constructor.pairs]
  | _ => simp [Constructor.pairs]

instance decidablePaired : ∀ (s : DynamicThreadPool T Tid) label, Decidable (Paired s label)
  | s,.worker w => decidable_of_iff ((s.worker w).pairs s.threads = true) Worker.pairs_iff
  | s,.construct => decidable_of_iff (s.constructor.pairs s.threads = true) Constructor.pairs_iff
  | _,.tick _ | _,.finish _ | _,.wake _ | _,.submit _ _ | _,.call _ _ | _,.stopAll => .isTrue trivial

def submitting (a : Agent Unit) (task : Nat) : List (Label Nat Unit) := .submit a (some task) :: List.replicate 4 (.call a 0)

def working (n : Nat) : List (Label Nat Unit) := List.replicate n (.worker 0)

def stopping (n : Nat) : List (Label Nat Unit) := List.replicate n .stopAll

def finishing (n : Nat) : List (Label Nat Unit) := .finish 0 :: working n

-- The pool is stopped while its only worker runs a task, which then submits
-- another.
def stopThenSubmit : List (Label Nat Unit) :=
  List.replicate 3 .construct ++ submitting (.other ()) 7 ++ working 3 ++ stopping 2 ++ submitting (.worker 0) 8 ++
    finishing 4 ++ stopping 1 ++ working 2 ++ finishing 4 ++ [.wake 0] ++ working 4 ++ stopping 1

def always : Config := {minThreads := 1,maxThreads := 1,initialThreads := 1}

theorem late_task_taken : ∃ s, machine.run (start always 0) stopThenSubmit = some s ∧ s.stopAll = .returned ∧
    s.pushed.map TaskEntry.task = [some 7,some 8] ∧ s.taken.map Prod.snd = s.pushed ∧ s.tasks = [] := by
  have accepted : always.accepted := ⟨Nat.le_refl 1,Nat.le_refl 1,by decide⟩
  have paired : machine.Meets Paired (start always 0) stopThenSubmit := by decide +kernel
  have ended : ((machine.run (start always 0) stopThenSubmit).map fun s => (s.stopAll,s.pushed.map TaskEntry.task)) =
      some (.returned,[some 7,some 8]) := by
    decide +kernel
  obtain ⟨s,ran,here⟩ := Option.map_eq_some_iff.mp ended
  obtain ⟨gone,pushed⟩ := Prod.mk.inj here
  obtain ⟨empty,ordered,_⟩ := drained_when_stopped accepted Nat.one_pos paired ran gone
  exact ⟨s,ran,gone,pushed,ordered,empty⟩

-- A pool that may have no worker loses a task.
example : ((machine.run (start {minThreads := 0,initialThreads := 0} 0 : DynamicThreadPool Nat Unit)
    ([.construct] ++ submitting (.other ()) 7 ++ List.replicate 4 (.call (.other ()) 0) ++ stopping 4)).map
      fun s => (s.stopAll,s.pushed.length,s.tasks.length)) = some (.returned,1,1) := by
  decide +kernel

end NewMuduo.DynamicThreadPool
