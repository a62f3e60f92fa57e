import NewMuduo.DynamicThreadPoolCount
import NewMuduo.Termination

namespace NewMuduo.DynamicThreadPool
variable {T Tid : Type} {s after : DynamicThreadPool T Tid} {w : Nat} {a : Agent Tid}
  {stage : Worker} {owner : Option (Agent Tid)} {active : Nat → Int}

-- Whoever has queueMutex_ is at a stage that holds it.
def Held (s : DynamicThreadPool T Tid) : Prop :=
  ∀ a, s.queueMutex = some a → (∃ w, a = .worker w ∧ (s.worker w).holds = true) ∨ (s.submit a).holds = true

-- A worker begins cv_.wait_for.
def Waits (s after : DynamicThreadPool T Tid) : Prop := ∃ w, s.worker w ≠ .waiting ∧ after.worker w = .waiting

def Worker.waits : Worker → Bool
  | .waiting | .waking | .woken => true
  | _ => false

def Worker.exits : Worker → Bool
  | .reading .exit | .writing .exit _ => true
  | _ => false

-- A worker has left, is about to, or waits with nothing in the queue.
def Leaving (s : DynamicThreadPool T Tid) (stage : Worker) : Prop :=
  stage.inLoop = false ∨ stage.exits = true ∨ s.tasks = [] ∧ stage.waits = true

def Quiet (s : DynamicThreadPool T Tid) : Prop := ∀ w, Leaving s (s.worker w)

-- From here on, the workers are on their own.
structure Stopped (s : DynamicThreadPool T Tid) : Prop where
  locked : Locked s
  lifetime : Lifetime s
  begun : s.stopAll ≠ .idle
  stop : s.stop = true

variable [DecidableEq Tid]

omit [DecidableEq Tid] in
theorem Held.moves (old : Held s) (kept : ∀ b, owner = some b → b = .worker w ∧ stage.holds = true ∨
    s.queueMutex = some b ∧ ((s.worker w).holds = true → stage.holds = true)) : Held {s.moves w stage with queueMutex := owner} := by
  intro b held
  rcases kept b held with ⟨rfl,holds⟩ | ⟨before,stays⟩
  · exact .inl ⟨w,rfl,(congrArg Worker.holds (Function.update_self ..)).trans holds⟩
  · refine (old b before).imp_left fun worker => ?_
    obtain ⟨v,rfl,holds⟩ := worker
    refine ⟨v,rfl,?_⟩
    by_cases same : v = w
    · rw [same] at holds
      rw [same]
      exact (congrArg Worker.holds (Function.update_self ..)).trans (stays holds)
    · exact (congrArg Worker.holds (Function.update_of_ne same ..)).trans holds

theorem Held.answers {call : Submit T} (old : Held s) (kept : ∀ b, owner = some b → b = a ∧ call.holds = true ∨
    s.queueMutex = some b ∧ ((s.submit a).holds = true → call.holds = true)) : Held {s.answers a call with queueMutex := owner} := by
  intro b held
  rcases kept b held with ⟨rfl,holds⟩ | ⟨before,stays⟩
  · refine .inr ?_
    dsimp only [DynamicThreadPool.answers]
    rw [Function.update_self]
    exact holds
  · refine (old b before).imp_right fun holds => ?_
    dsimp only [DynamicThreadPool.answers]
    by_cases same : b = a
    · rw [same] at holds
      rw [same,Function.update_self]
      exact stays holds
    · rw [Function.update_of_ne same]
      exact holds

omit [DecidableEq Tid] in
theorem Held.wakes (old : Held s) {others : Nat → Worker} (woken : Woken s.worker others) : Held {s with worker := others} := by
  intro b held
  refine (old b held).imp_left fun worker => ?_
  obtain ⟨v,same,holds⟩ := worker
  exact ⟨v,same,(woken.keeps Worker.holds rfl v).trans holds⟩

omit [DecidableEq Tid] in
theorem Held.worker (old : Held s) (move : WorkerMove s w stage owner active) :
    Held {s.moves w stage with queueMutex := owner,lastActive := active} := by
  have kept : ∀ b, owner = some b → b = .worker w ∧ stage.holds = true ∨
      s.queueMutex = some b ∧ ((s.worker w).holds = true → stage.holds = true) := by
    intro b held
    cases move with
    | lock here free => exact .inl ⟨(Option.some.inj held).symm,rfl⟩
    | relock here free => exact .inl ⟨(Option.some.inj held).symm,rfl⟩
    | shrinkLock now here free => exact .inl ⟨(Option.some.inj held).symm,rfl⟩
    | wait here _ => cases held
    | nothing here _ _ => cases held
    | keep now here => cases held
    | _ => exact .inr ⟨held,by simp [*,Worker.holds]⟩
  exact old.moves kept

omit [DecidableEq Tid] in
theorem Held.spawn (old : Held s) (fresh : s.worker s.spawned = .unspawned) : Held s.spawn := by
  have kept : Held {s.moves s.spawned .starting with queueMutex := s.queueMutex} :=
    old.moves fun b held => .inr ⟨held,by simp [fresh,Worker.holds]⟩
  exact kept

theorem Held.call {call : Submit T} (old : Held s) (move : CallMove s a call owner) :
    Held {s.answers a call with queueMutex := owner} := by
  refine old.answers fun b held => ?_
  cases move with
  | lock entry here free => exact .inl ⟨(Option.some.inj held).symm,rfl⟩
  | relock now here free => exact .inl ⟨(Option.some.inj held).symm,rfl⟩
  | few here _ | clock here | cooled _ here _ => exact .inr ⟨held,by simp [here,Submit.holds]⟩

theorem Held.returns (old : Held s) (back : Return s a owner) : Held {s.returns a with queueMutex := owner} := by
  have kept : Held {s.answers a .idle with queueMutex := owner} := by
    refine old.answers fun b held => ?_
    cases back with
    | refuse _ _ _ => cases held
    | many here _ | cooling _ here => exact .inr ⟨held,by simp [here,Submit.holds]⟩
  exact kept

theorem Held.step {label : Label T Tid} (old : Held s) (fresh : s.worker s.spawned = .unspawned) (turn : Turns s label after) : Held after := by
  cases turn with
  | worker w move => exact old.worker move
  | take w entry rest here found => exact fun _ absent => (by cases absent)
  | decrement w read why here => cases why <;> exact fun _ absent => (by cases absent)
  | push a entry here => exact fun _ absent => (by cases absent)
  | resize i read here => exact old.spawn fresh
  | expand a now here able => exact fun _ absent => (by cases absent)
  | call a move => exact old.call move
  | submit a task able =>
    refine old.answers fun b held => .inr ⟨held,fun holds => ?_⟩
    unfold maySubmit at able
    simp only [Bool.and_eq_true] at able
    rw [Submit.idle_free able.1.2] at holds
    cases holds
  | notify a others here woken =>
    have moved : Held (s.answers a .expandThreads) := old.answers fun b held => .inr ⟨held,by simp [here,Submit.holds]⟩
    exact moved.wakes woken
  | returns a back => exact old.returns back
  | notify_all here => exact old.wakes (Woken.all s.worker)
  | _ => exact old

omit [DecidableEq Tid] in
-- Nobody is in submit any more.
theorem Stopped.silent (old : Stopped s) (quiet : Quiet s) (a : Agent Tid) : (s.submit a).isIdle = true := by
  cases a with
  | worker w =>
    refine (old.locked.nested w).resolve_right fun running => ?_
    have leaving := quiet w
    simp [Leaving,running,Worker.inLoop,Worker.exits,Worker.waits] at leaving
  | other t =>
    obtain ⟨none,_⟩ := old.lifetime.closed.resolve_left old.begun
    have idle := old.lifetime.outside.eq_zero_iff.mp none t
    unfold Submit.busy at idle
    simpa using idle

omit [DecidableEq Tid] in
theorem Stopped.worker (old : Stopped s) (leaving : Leaving s (s.worker w)) (move : WorkerMove s w stage owner active) :
    Leaving s stage ∧ stage ≠ .waiting := by
  cases move with
  | wake here | relock here _ =>
    simp only [Leaving,here,Worker.inLoop,Worker.exits,Worker.waits] at leaving ⊢
    simpa using leaving
  | stopped here _ _ => exact ⟨.inr (.inl rfl),by simp⟩
  | tired here running _ _ _ => cases old.stop.symm.trans running
  | nothing here running _ => cases old.stop.symm.trans running
  | read why here =>
    cases why with
    | exit => exact ⟨.inr (.inl rfl),by simp⟩
    | shrink now => simp [Leaving,here,Worker.inLoop,Worker.exits,Worker.waits] at leaving
  | _ => simp [*,Leaving,Worker.inLoop,Worker.exits,Worker.waits] at leaving

omit [DecidableEq Tid] in
theorem Woken.leaving {others : Nat → Worker} (woken : Woken s.worker others) : Leaving s (others w) ↔ Leaving s (s.worker w) := by
  unfold Leaving
  rw [woken.keeps Worker.inLoop rfl w,woken.keeps Worker.exits rfl w,woken.keeps Worker.waits rfl w]

omit [DecidableEq Tid] in
-- A worker that goes elsewhere does not begin to wait, and the others stay.
theorem no_wait (apart : stage ≠ .waiting) : ¬∃ v, s.worker v ≠ .waiting ∧ Function.update s.worker w stage v = .waiting := by
  intro waits
  obtain ⟨v,before,now⟩ := waits
  by_cases same : v = w
  · rw [same,Function.update_self] at now
    exact apart now
  · rw [Function.update_of_ne same] at now
    exact before now

theorem Stopped.step {label : Label T Tid} (old : Stopped s) (taken : machine.next s label = some after) : Stopped after := by
  have turn : Turns s label after := step_turns taken
  refine ⟨old.locked.step turn,old.lifetime.step turn,?_,?_⟩
  · intro idle
    exact old.begun (turn.idle_before idle)
  · have stop := old.stop
    cases turn with
    | decrement w read why here => cases why <;> exact stop
    | stop _ _ => rfl
    | _ => exact stop

theorem Stopped.quiet {label : Label T Tid} (old : Stopped s) (quiet : Quiet s) (turn : Turns s label after) :
    Quiet after ∧ ¬Waits s after := by
  have same : ¬Waits s s := fun ⟨_,before,now⟩ => before now
  have silent := old.silent quiet
  have calls : ∀ {a}, (s.submit a).isIdle = false → False := by
    intro a busy
    rw [silent a] at busy
    cases busy
  obtain ⟨_,built⟩ := old.lifetime.closed.resolve_left old.begun
  cases turn with
  | worker w move =>
    have next := old.worker (quiet w) move
    refine ⟨(Function.forall_update_iff s.worker fun _ stage => Leaving s stage).mpr ⟨next.1,fun v _ => quiet v⟩,?_⟩
    exact no_wait next.2
  | take w entry rest here found =>
    have leaving := quiet w
    rcases here with ⟨here,running⟩ | here
    · cases old.stop.symm.trans running
    · simp [Leaving,here,found,Worker.inLoop,Worker.exits] at leaving
  | decrement w read why here =>
    have leaving := quiet w
    cases why with
    | shrink now => simp [Leaving,here,Worker.inLoop,Worker.exits,Worker.waits] at leaving
    | exit =>
      refine ⟨(Function.forall_update_iff s.worker fun _ stage => Leaving s stage).mpr ⟨.inl rfl,fun v _ => quiet v⟩,?_⟩
      exact no_wait (by simp)
  | submit a task able =>
    unfold maySubmit at able
    simp only [Bool.and_eq_true,decide_eq_true_eq] at able
    obtain ⟨_,user⟩ := able
    cases a with
    | worker w =>
      have leaving := quiet w
      simp [Leaving,of_decide_eq_true user,Worker.inLoop,Worker.exits,Worker.waits] at leaving
    | other t => exact absurd (of_decide_eq_true user) old.begun
  | call a move => exact (calls move.busy.1).elim
  | returns a back => exact (calls back.busy).elim
  | push a entry here => exact (calls (a := a) (by rw [here]; rfl)).elim
  | notify a others here woken => exact (calls (a := a) (by rw [here]; rfl)).elim
  | expand a now here able => exact (calls (a := a) (by rw [here]; rfl)).elim
  | count i here _ => cases here.symm.trans built
  | built i here _ => cases here.symm.trans built
  | resize i read here => cases here.symm.trans built
  | notify_all here =>
    have woken := Woken.all s.worker
    refine ⟨fun w => woken.leaving.mpr (quiet w),?_⟩
    · intro waits
      obtain ⟨w,before,now⟩ := waits
      rcases woken w with equal | ⟨_,woke⟩
      · exact before (equal.symm.trans now)
      · cases woke.symm.trans now
  | _ => exact ⟨quiet,same⟩

-- The way back of a worker, last stage first: after stop_ it waits whether or
-- not there are tasks.
section back

theorem comes_holding (stop : s.stop = true) (here : s.worker w = .holding) : machine.Comes Waits s := by
  have taken : machine.next s (.worker w) = some {s.moves w .waiting with queueMutex := none} := by
    simp [machine,DynamicThreadPool.step,stepWorker,here,stop]
  exact .now taken ⟨w,by simp [here],Function.update_self ..⟩

theorem comes_locking (stop : s.stop = true) (free : s.queueMutex = none) (here : s.worker w = .locking) : machine.Comes Waits s := by
  have taken : machine.next s (.worker w) = some {s.moves w .holding with queueMutex := some (.worker w)} := by
    simp [machine,DynamicThreadPool.step,stepWorker,here,free]
  have rest : machine.Comes Waits {s.moves w .holding with queueMutex := some (.worker w)} :=
    comes_holding stop (Function.update_self w _ _)
  exact rest.later taken

theorem comes_starting (stop : s.stop = true) (free : s.queueMutex = none) (here : s.worker w = .starting) : machine.Comes Waits s := by
  have taken : machine.next s (.worker w) = some {s.moves w .locking with lastActive := Function.update s.lastActive w s.clock} := by
    simp [machine,DynamicThreadPool.step,stepWorker,here]
  have rest : machine.Comes Waits {s.moves w .locking with lastActive := Function.update s.lastActive w s.clock} :=
    comes_locking stop free (Function.update_self w _ _)
  exact rest.later taken

theorem comes_decrementing {now : Int} {read : Nat} (stop : s.stop = true) (here : s.worker w = .writing (.shrink now) read) :
    machine.Comes Waits s := by
  have taken : machine.next s (.worker w) = some (s.decrement w read (.shrink now)) := by
    simp [machine,DynamicThreadPool.step,stepWorker,here]
  have rest : machine.Comes Waits (s.decrement w read (.shrink now)) := comes_locking stop rfl (Function.update_self w _ _)
  exact rest.later taken

theorem comes_counting {now : Int} (stop : s.stop = true) (here : s.worker w = .reading (.shrink now)) : machine.Comes Waits s := by
  have taken : machine.next s (.worker w) = some (s.moves w (.writing (.shrink now) s.threads)) := by
    simp [machine,DynamicThreadPool.step,stepWorker,here]
  have rest : machine.Comes Waits (s.moves w (.writing (.shrink now) s.threads)) :=
    comes_decrementing stop (Function.update_self w _ _)
  exact rest.later taken

theorem comes_shrinking {now : Int} (stop : s.stop = true) (here : s.worker w = .shrinking now) : machine.Comes Waits s := by
  by_cases able : s.canShrink w now
  · have taken : machine.next s (.worker w) = some (s.moves w (.reading (.shrink now))) := by
      simp [machine,DynamicThreadPool.step,stepWorker,here,able]
    have rest : machine.Comes Waits (s.moves w (.reading (.shrink now))) := comes_counting stop (Function.update_self w _ _)
    exact rest.later taken
  · have taken : machine.next s (.worker w) = some {s.moves w .locking with queueMutex := none} := by
      simp [machine,DynamicThreadPool.step,stepWorker,here,able]
    have rest : machine.Comes Waits {s.moves w .locking with queueMutex := none} := comes_locking stop rfl (Function.update_self w _ _)
    exact rest.later taken

theorem comes_shrinkLocking {now : Int} (stop : s.stop = true) (free : s.queueMutex = none) (here : s.worker w = .shrinkLocking now) :
    machine.Comes Waits s := by
  have taken : machine.next s (.worker w) = some {s.moves w (.shrinking now) with queueMutex := some (.worker w)} := by
    simp [machine,DynamicThreadPool.step,stepWorker,here,free]
  have rest : machine.Comes Waits {s.moves w (.shrinking now) with queueMutex := some (.worker w)} :=
    comes_shrinking stop (Function.update_self w _ _)
  exact rest.later taken

theorem comes_shrinkTime {now : Int} (stop : s.stop = true) (free : s.queueMutex = none) (here : s.worker w = .shrinkTime now) :
    machine.Comes Waits s := by
  have taken : machine.next s (.worker w) = some (s.moves w
      (if now - s.lastShrinkTime < s.config.shrinkCooldown * sec then .locking else .shrinkLocking now)) := by
    simp [machine,DynamicThreadPool.step,stepWorker,here]
  refine Machine.Comes.later taken ?_
  split
  · exact comes_locking stop free (Function.update_self w _ _)
  · exact comes_shrinkLocking stop free (Function.update_self w _ _)

theorem comes_shrinkThreads {now : Int} (stop : s.stop = true) (free : s.queueMutex = none) (here : s.worker w = .shrinkThreads now) :
    machine.Comes Waits s := by
  have taken : machine.next s (.worker w) = some (s.moves w (if s.threads ≤ s.config.minThreads then .locking else .shrinkTime now)) := by
    simp [machine,DynamicThreadPool.step,stepWorker,here]
  refine Machine.Comes.later taken ?_
  split
  · exact comes_locking stop free (Function.update_self w _ _)
  · exact comes_shrinkTime stop free (Function.update_self w _ _)

theorem comes_shrinkClock (stop : s.stop = true) (free : s.queueMutex = none) (here : s.worker w = .shrinkClock) :
    machine.Comes Waits s := by
  have taken : machine.next s (.worker w) = some (s.moves w (.shrinkThreads s.clock)) := by
    simp [machine,DynamicThreadPool.step,stepWorker,here]
  have rest : machine.Comes Waits (s.moves w (.shrinkThreads s.clock)) := comes_shrinkThreads stop free (Function.update_self w _ _)
  exact rest.later taken

theorem comes_finishing (stop : s.stop = true) (free : s.queueMutex = none) (here : s.worker w = .running)
    (idle : (s.submit (.worker w)).isIdle = true) : machine.Comes Waits s := by
  have taken : machine.next s (.finish w) =
      some {s.moves w .shrinkClock with lastActive := Function.update s.lastActive w s.clock} := by
    simp [machine,DynamicThreadPool.step,here,idle]
  have rest : machine.Comes Waits {s.moves w .shrinkClock with lastActive := Function.update s.lastActive w s.clock} :=
    comes_shrinkClock stop free (Function.update_self w _ _)
  exact rest.later taken

theorem comes_returned (stop : s.stop = true) (here : s.worker w = .running) :
    machine.Comes Waits {s.returns (.worker w) with queueMutex := none} := by
  have idle : ((s.returns (.worker w)).submit (.worker w)).isIdle = true := by
    dsimp only [returns,answers]
    rw [Function.update_self]
    rfl
  exact comes_finishing stop rfl here idle

theorem comes_expanding {now : Int} (old : Stopped s) (here : s.worker w = .running) (call : s.submit (.worker w) = .expanding now) :
    machine.Comes Waits s := by
  by_cases able : s.canExpand now
  · have taken : machine.next s (.call (.worker w) 0) = some {(s.expand now).returns (.worker w) with queueMutex := none} := by
      simp [machine,DynamicThreadPool.step,stepSubmit,call,able]
    have apart : w ≠ s.spawned := by
      rintro rfl
      cases here.symm.trans (old.locked.fresh s.spawned (Nat.le_refl _))
    have running : (s.expand now).worker w = .running := (Function.update_of_ne apart _ _).trans here
    exact (comes_returned (s := s.expand now) old.stop running).later taken
  · have taken : machine.next s (.call (.worker w) 0) = some {s.returns (.worker w) with queueMutex := none} := by
      simp [machine,DynamicThreadPool.step,stepSubmit,call,able]
    exact (comes_returned old.stop here).later taken

theorem comes_expandLocking {now : Int} (old : Stopped s) (free : s.queueMutex = none) (here : s.worker w = .running)
    (call : s.submit (.worker w) = .expandLocking now) : machine.Comes Waits s := by
  have taken : machine.next s (.call (.worker w) 0) =
      some {s.answers (.worker w) (.expanding now) with queueMutex := some (.worker w)} := by
    simp [machine,DynamicThreadPool.step,stepSubmit,call,free]
  exact (comes_expanding (old.step taken) here (Function.update_self ..)).later taken

theorem comes_expandTime {now : Int} (old : Stopped s) (free : s.queueMutex = none) (here : s.worker w = .running)
    (call : s.submit (.worker w) = .expandTime now) : machine.Comes Waits s := by
  have taken : machine.next s (.call (.worker w) 0) =
      some (if now - s.lastExpandTime < s.config.expandCooldown * sec then s.returns (.worker w)
        else s.answers (.worker w) (.expandLocking now)) := by
    simp [machine,DynamicThreadPool.step,stepSubmit,call]
  have next := old.step taken
  refine Machine.Comes.later taken ?_
  split
  · exact comes_finishing old.stop free here (by simp [returns,answers,Submit.isIdle])
  · rename_i cooled
    rw [if_neg cooled] at next
    exact comes_expandLocking next free here (Function.update_self ..)

theorem comes_expandClock (old : Stopped s) (free : s.queueMutex = none) (here : s.worker w = .running)
    (call : s.submit (.worker w) = .expandClock) : machine.Comes Waits s := by
  have taken : machine.next s (.call (.worker w) 0) = some (s.answers (.worker w) (.expandTime s.clock)) := by
    simp [machine,DynamicThreadPool.step,stepSubmit,call]
  exact (comes_expandTime (old.step taken) free here (Function.update_self ..)).later taken

theorem comes_expandThreads (old : Stopped s) (free : s.queueMutex = none) (here : s.worker w = .running)
    (call : s.submit (.worker w) = .expandThreads) : machine.Comes Waits s := by
  have taken : machine.next s (.call (.worker w) 0) =
      some (if s.config.maxThreads ≤ s.threads then s.returns (.worker w) else s.answers (.worker w) .expandClock) := by
    simp [machine,DynamicThreadPool.step,stepSubmit,call]
  have next := old.step taken
  refine Machine.Comes.later taken ?_
  split
  · exact comes_finishing old.stop free here (by simp [returns,answers,Submit.isIdle])
  · rename_i few
    rw [if_neg few] at next
    exact comes_expandClock next free here (Function.update_self ..)

omit [DecidableEq Tid] in
-- cv_.notify_one() finds somebody to wake or nobody that waits.
theorem notify_one_some (s : DynamicThreadPool T Tid) : ∃ woken notified, s.notify_one woken = some notified := by
  by_cases sleeps : ∃ v, s.worker v = .waiting
  · obtain ⟨v,waits⟩ := sleeps
    exact ⟨v,_,if_pos waits⟩
  · push Not at sleeps
    refine ⟨0,s,?_⟩
    unfold notify_one
    rw [if_neg (sleeps 0),if_pos (by simp [sleeps])]

theorem comes_notifying (old : Stopped s) (free : s.queueMutex = none) (here : s.worker w = .running)
    (call : s.submit (.worker w) = .notifying) : machine.Comes Waits s := by
  obtain ⟨woken,notified,found⟩ := notify_one_some s
  have taken : machine.next s (.call (.worker w) woken) = some (notified.answers (.worker w) .expandThreads) := by
    simp [machine,DynamicThreadPool.step,stepSubmit,call,found]
  have next := old.step taken
  obtain ⟨others,woke,rfl⟩ := notify_one_parts found
  have running : others w = .running := by
    rcases woke w with equal | ⟨waits,_⟩
    · exact equal.trans here
    · cases here.symm.trans waits
  exact (comes_expandThreads next free running (Function.update_self ..)).later taken

theorem comes_pushing {entry : TaskEntry T} (old : Stopped s) (here : s.worker w = .running)
    (call : s.submit (.worker w) = .pushing entry) : machine.Comes Waits s := by
  have taken : machine.next s (.call (.worker w) 0) = some {s.answers (.worker w) .notifying with
      tasks := s.tasks ++ [entry]
      pushed := s.pushed ++ [entry]
      queueMutex := none} := by
    simp [machine,DynamicThreadPool.step,stepSubmit,call]
  exact (comes_notifying (old.step taken) rfl here (Function.update_self ..)).later taken

theorem comes_submitting {entry : TaskEntry T} (old : Stopped s) (free : s.queueMutex = none) (here : s.worker w = .running)
    (call : s.submit (.worker w) = .locking entry) : machine.Comes Waits s := by
  have taken : machine.next s (.call (.worker w) 0) =
      some {s.answers (.worker w) (.pushing entry) with queueMutex := some (.worker w)} := by
    simp [machine,DynamicThreadPool.step,stepSubmit,call,free]
  exact (comes_pushing (old.step taken) here (Function.update_self ..)).later taken

theorem comes_running (old : Stopped s) (here : s.worker w = .running)
    (able : s.queueMutex = none ∨ (s.submit (.worker w)).holds = true) : machine.Comes Waits s := by
  have free : (s.submit (.worker w)).holds = false → s.queueMutex = none := by
    intro quiet
    refine able.resolve_right fun holds => ?_
    rw [quiet] at holds
    cases holds
  cases call : s.submit (.worker w) with
  | pushing entry => exact comes_pushing old here call
  | expanding now => exact comes_expanding old here call
  | idle => exact comes_finishing old.stop (free (by rw [call]; rfl)) here (by rw [call]; rfl)
  | locking entry => exact comes_submitting old (free (by rw [call]; rfl)) here call
  | notifying => exact comes_notifying old (free (by rw [call]; rfl)) here call
  | expandThreads => exact comes_expandThreads old (free (by rw [call]; rfl)) here call
  | expandClock => exact comes_expandClock old (free (by rw [call]; rfl)) here call
  | expandTime now => exact comes_expandTime old (free (by rw [call]; rfl)) here call
  | expandLocking now => exact comes_expandLocking old (free (by rw [call]; rfl)) here call

theorem comes_taking (old : Stopped s) (here : s.worker w = .woken) (more : s.tasks ≠ []) : machine.Comes Waits s := by
  obtain ⟨entry,rest,found⟩ := List.exists_cons_of_ne_nil more
  have taken : machine.next s (.worker w) = some {s.moves w (if entry.task.isSome then .running else .shrinkClock) with
      tasks := rest
      taken := s.taken ++ [(w,entry)]
      queueMutex := none} := by
    simp [machine,DynamicThreadPool.step,stepWorker,here,woke,take,found]
  have next := old.step taken
  refine Machine.Comes.later taken ?_
  split
  · rename_i some
    rw [if_pos some] at next
    exact comes_running next (Function.update_self ..) (.inl rfl)
  · exact comes_shrinkClock old.stop rfl (Function.update_self ..)

theorem comes_waking (old : Stopped s) (free : s.queueMutex = none) (here : s.worker w = .waking) (more : s.tasks ≠ []) :
    machine.Comes Waits s := by
  have taken : machine.next s (.worker w) = some {s.moves w .woken with queueMutex := some (.worker w)} := by
    simp [machine,DynamicThreadPool.step,stepWorker,here,free]
  exact (comes_taking (old.step taken) (Function.update_self ..) more).later taken

theorem comes_waiting (old : Stopped s) (free : s.queueMutex = none) (here : s.worker w = .waiting) (more : s.tasks ≠ []) :
    machine.Comes Waits s := by
  have taken : machine.next s (.wake w) = some (s.moves w .waking) := by
    simp [machine,DynamicThreadPool.step,here]
  exact (comes_waking (old.step taken) free (Function.update_self ..) more).later taken

theorem comes_of_free (old : Stopped s) (free : s.queueMutex = none) (stays : ¬Leaving s (s.worker w)) : machine.Comes Waits s := by
  unfold Leaving at stays
  push Not at stays
  obtain ⟨inside,staying,more⟩ := stays
  cases here : s.worker w with
  | unspawned => simp [here,Worker.inLoop] at inside
  | left => simp [here,Worker.inLoop] at inside
  | starting => exact comes_starting old.stop free here
  | locking => exact comes_locking old.stop free here
  | holding => exact comes_holding old.stop here
  | waiting => exact comes_waiting old free here fun empty => more empty (by rw [here]; rfl)
  | waking => exact comes_waking old free here fun empty => more empty (by rw [here]; rfl)
  | woken => exact comes_taking old here fun empty => more empty (by rw [here]; rfl)
  | running => exact comes_running old here (.inl free)
  | shrinkClock => exact comes_shrinkClock old.stop free here
  | shrinkThreads now => exact comes_shrinkThreads old.stop free here
  | shrinkTime now => exact comes_shrinkTime old.stop free here
  | shrinkLocking now => exact comes_shrinkLocking old.stop free here
  | shrinking now => exact comes_shrinking old.stop here
  | reading why =>
    cases why with
    | exit => simp [here,Worker.exits] at staying
    | shrink now => exact comes_counting old.stop here
  | writing why read =>
    cases why with
    | exit => simp [here,Worker.exits] at staying
    | shrink now => exact comes_decrementing old.stop here

omit [DecidableEq Tid] in
theorem apart_of_leaving {v : Nat} (leaves : Leaving s (s.worker v)) (stays : ¬Leaving s (s.worker w)) : w ≠ v := by
  intro same
  rw [same] at stays
  exact stays leaves

-- One worker leaves and lets another have queueMutex_.
theorem comes_exiting {v read : Nat} (old : Stopped s) (here : s.worker v = .writing .exit read)
    (stays : ¬Leaving s (s.worker w)) : machine.Comes Waits s := by
  have apart : w ≠ v := apart_of_leaving (.inr (.inl (by rw [here]; rfl))) stays
  have taken : machine.next s (.worker v) = some (s.decrement v read .exit) := by
    simp [machine,DynamicThreadPool.step,stepWorker,here]
  have same : (s.decrement v read .exit).worker w = s.worker w := Function.update_of_ne apart _ _
  refine Machine.Comes.later taken (comes_of_free (w := w) (old.step taken) rfl ?_)
  rw [same]
  exact stays

theorem comes_leaving {v : Nat} (old : Stopped s) (here : s.worker v = .reading .exit) (stays : ¬Leaving s (s.worker w)) :
    machine.Comes Waits s := by
  have apart : w ≠ v := apart_of_leaving (.inr (.inl (by rw [here]; rfl))) stays
  have taken : machine.next s (.worker v) = some (s.moves v (.writing .exit s.threads)) := by
    simp [machine,DynamicThreadPool.step,stepWorker,here]
  have same : (s.moves v (.writing .exit s.threads)).worker w = s.worker w := Function.update_of_ne apart _ _
  refine Machine.Comes.later taken (comes_exiting (v := v) (w := w) (old.step taken) (Function.update_self ..) ?_)
  rw [same]
  exact stays

theorem comes_drained {v : Nat} (old : Stopped s) (here : s.worker v = .woken) (empty : s.tasks = [])
    (stays : ¬Leaving s (s.worker w)) : machine.Comes Waits s := by
  have apart : w ≠ v := apart_of_leaving (.inr (.inr ⟨empty,by rw [here]; rfl⟩)) stays
  have taken : machine.next s (.worker v) = some (s.moves v (.reading .exit)) := by
    simp [machine,DynamicThreadPool.step,stepWorker,here,woke,empty,old.stop]
  have same : (s.moves v (.reading .exit)).worker w = s.worker w := Function.update_of_ne apart _ _
  refine Machine.Comes.later taken (comes_leaving (v := v) (w := w) (old.step taken) (Function.update_self ..) ?_)
  rw [same]
  exact stays

omit [DecidableEq Tid] in
theorem Stopped.inside (old : Stopped s) (busy : (s.submit a).isIdle = false) : ∃ w, a = .worker w ∧ s.worker w = .running := by
  cases a with
  | worker w => exact ⟨w,rfl,old.locked.user busy⟩
  | other t =>
    obtain ⟨none,_⟩ := old.lifetime.closed.resolve_left old.begun
    have idle := old.lifetime.outside.eq_zero_iff.mp none t
    unfold Submit.busy at idle
    rw [busy] at idle
    cases idle

-- Whoever has queueMutex_ waits itself or lets go of it.
theorem comes_of_stays (old : Stopped s) (held : Held s) (stays : ¬Leaving s (s.worker w)) : machine.Comes Waits s := by
  cases mutex : s.queueMutex with
  | none => exact comes_of_free old mutex stays
  | some a =>
    rcases held a mutex with ⟨v,rfl,holds⟩ | holds
    · cases here : s.worker v with
      | holding => exact comes_holding old.stop here
      | shrinking now => exact comes_shrinking old.stop here
      | woken =>
        by_cases empty : s.tasks = []
        · exact comes_drained old here empty stays
        · exact comes_taking old here empty
      | reading why =>
        cases why with
        | exit => exact comes_leaving old here stays
        | shrink now => exact comes_counting old.stop here
      | writing why read =>
        cases why with
        | exit => exact comes_exiting old here stays
        | shrink now => exact comes_decrementing old.stop here
      | _ =>
        rw [here] at holds
        cases holds
    · have busy : (s.submit a).isIdle = false := by
        refine Bool.of_not_eq_true fun idle => ?_
        rw [Submit.idle_free idle] at holds
        cases holds
      obtain ⟨v,rfl,running⟩ := old.inside busy
      exact comes_running old running (.inr holds)

end back

-- What holds of every state of a pool.
structure Accounted (s : DynamicThreadPool T Tid) : Prop where
  locked : Locked s
  lifetime : Lifetime s
  held : Held s
  stop : s.stopAll = .idle ∨ s.stopAll = .locking ∨ s.stop = true

theorem Accounted.preserves :
    (machine : Machine (DynamicThreadPool T Tid) (Label T Tid)).Preserves (fun _ _ => True) Accounted := by
  refine ⟨?_,?_⟩
  · intro s origin
    obtain ⟨config,clock,accepted,rfl⟩ := origin
    exact ⟨.started config clock,.started config clock accepted,fun _ absent => (by cases absent),.inl rfl⟩
  · intro s label after old _ taken
    have turn : Turns s label after := step_turns taken
    refine ⟨old.locked.step turn,old.lifetime.step turn,old.held.step (old.locked.fresh _ (Nat.le_refl _)) turn,?_⟩
    have stop := old.stop
    cases turn with
    | stopAll _ _ _ => exact .inr (.inl rfl)
    | stop _ _ => exact .inr (.inr rfl)
    | notify_all here => exact .inr (.inr (by simpa [here] using stop))
    | poll here _ _ => exact .inr (.inr (by simpa [here] using stop))
    | decrement w read why here => cases why <;> exact stop
    | _ => exact stop

theorem no_wait_iff_quiet {notified : DynamicThreadPool T Tid} (path : machine.Reached s) (here : s.stopAll = .notifying)
    (taken : machine.next s .stopAll = some notified) : ¬machine.Comes Waits notified ↔ Quiet s := by
  have old := Accounted.preserves.reached path
  have stopped : Stopped s := ⟨old.locked,old.lifetime,by simp [here],by simpa [here] using old.stop⟩
  have next := stopped.step taken
  have turn : Turns s .stopAll notified := step_turns taken
  have equal : {s with worker := fun w => (s.worker w).wake,stopAll := .polling} = notified := by
    simpa [machine,DynamicThreadPool.step,stepStopAll,here] using taken
  have same : Quiet notified ↔ Quiet s := by
    rw [← equal]
    exact forall_congr' fun w => (Woken.all s.worker).leaving
  rw [← same]
  constructor
  · intro none w
    by_contra stays
    have held := old.held.step (old.locked.fresh _ (Nat.le_refl _)) turn
    exact none (comes_of_stays next held stays)
  · intro quiet
    have kept : ∀ (s : DynamicThreadPool T Tid) label after, Stopped s ∧ Quiet s → machine.next s label = some after →
        (Stopped after ∧ Quiet after) ∧ ¬Waits s after := by
      intro s label after both taken
      obtain ⟨quiet,none⟩ := both.1.quiet both.2 (step_turns taken)
      exact ⟨⟨both.1.step taken,quiet⟩,none⟩
    exact Machine.Comes.never kept ⟨next,quiet⟩

-- The pool is stopped while its one worker waits for a task.
def stopWhenIdle : List (Label Nat Unit) := List.replicate 3 .construct ++ List.replicate 3 (.worker 0) ++ List.replicate 2 .stopAll

theorem idle_pool_stops : ∃ s notified, machine.run (start oneWorker 0) stopWhenIdle = some s ∧
    machine.next s .stopAll = some notified ∧ ¬machine.Comes Waits notified := by
  have accepted : oneWorker.accepted := ⟨Nat.zero_le 1,Nat.le_refl 1,by decide⟩
  have ran : machine.run (start oneWorker 0) stopWhenIdle = some _ := rfl
  have path := (Machine.Reached.start (m := machine) ⟨oneWorker,0,accepted,rfl⟩).run ran
  refine ⟨_,_,ran,rfl,(no_wait_iff_quiet path rfl rfl).mpr ?_⟩
  intro w
  cases w with
  | zero => exact .inr (.inr ⟨rfl,rfl⟩)
  | succ w => exact .inl rfl

-- The pool is stopped while its one worker runs a task.
def stopWhenBusy : List (Label Nat Unit) :=
  List.replicate 3 .construct ++ [.submit (.other ()) (some 7)] ++ List.replicate 4 (.call (.other ()) 0) ++
    List.replicate 3 (.worker 0) ++ List.replicate 2 .stopAll

theorem busy_worker_waits : ∃ s notified, machine.run (start oneWorker 0) stopWhenBusy = some s ∧ s.stopAll = .notifying ∧
    machine.next s .stopAll = some notified ∧ machine.Comes Waits notified := by
  have ran : machine.run (start oneWorker 0) stopWhenBusy = some _ := rfl
  refine ⟨_,_,ran,rfl,rfl,[.finish 0] ++ List.replicate 6 (.worker 0),_,.worker 0,_,rfl,rfl,0,?_,rfl⟩
  decide

end NewMuduo.DynamicThreadPool
