import NewMuduo.EventLoopQueue

namespace NewMuduo

-- coro/CoroScheduler.cpp on the loop that CoroEventLoop attaches it to: the
-- queue of handles and whether a resumed coroutine is running. scheduled has
-- all handles pushed and popped what the drain took, with h && !h.done().
structure CoroScheduler (F H Tid : Type) where
  loop : EventLoop F Tid
  pendingCoroutines : List H
  running : Bool
  scheduled : List H
  popped : List (H × Bool)

namespace CoroScheduler
variable {F H Tid : Type} {s after : CoroScheduler F H Tid}

inductive Label (F H Tid : Type) where
  | loop (label : EventLoop.Label F Tid)
  | scheduleResume (t : Tid) (h : H)
  | ownScheduleResume (h : H)
  | resume (alive : Bool)
  | suspends

def scheduleResume (s : CoroScheduler F H Tid) (h : H) : CoroScheduler F H Tid :=
  {s with pendingCoroutines := s.pendingCoroutines ++ [h],scheduled := s.scheduled ++ [h]}

-- One turn of processPendingResumes.
def resume (s : CoroScheduler F H Tid) (alive : Bool) : CoroScheduler F H Tid :=
  match s.pendingCoroutines with
  | [] => s
  | h :: rest => {s with pendingCoroutines := rest,running := alive,popped := s.popped ++ [(h,alive)]}

-- In the drain the user's code is a resumed coroutine.
def inUserCode (s : CoroScheduler F H Tid) : Prop :=
  EventLoop.userRuns s.loop.phase = true ∧ (s.loop.phase = .resuming → s.running = true)

instance (s : CoroScheduler F H Tid) : Decidable s.inUserCode := inferInstanceAs (Decidable (_ ∧ _))

def reaches (s : CoroScheduler F H Tid) : EventLoop.Label F Tid → Prop
  | .processPendingResumes => s.pendingCoroutines.isEmpty = true ∧ s.running = false
  | .ownPush _ | .ownQuit => s.inUserCode
  | _ => True

instance (s : CoroScheduler F H Tid) : ∀ label : EventLoop.Label F Tid, Decidable (s.reaches label)
  | .processPendingResumes => inferInstanceAs (Decidable (_ ∧ _))
  | .ownPush _ | .ownQuit => inferInstanceAs (Decidable s.inUserCode)
  | .push .. | .quit _ | .wakeup _ | .ownTest | .loop | .check | .pollReturns _ | .handleRead | .handled | .swap | .runFunctor
  | .functorReturns | .functorsDone | .destroyFunctor | .functorDestroyed | .cleared => .isTrue trivial

-- postTask is scheduleResume.
def allowed (s : CoroScheduler F H Tid) : Label F H Tid → Prop
  | .loop label => s.reaches label ∧ s.loop.allowed label
  | .scheduleResume t _ => s.loop.callers t = .idle
  | .ownScheduleResume _ => s.inUserCode ∧ s.loop.own = false
  | .resume _ => s.loop.phase = .resuming ∧ s.running = false ∧ s.pendingCoroutines.isEmpty = false
  | .suspends => s.running = true ∧ s.loop.own = false

instance (s : CoroScheduler F H Tid) (label : Label F H Tid) : Decidable (s.allowed label) := by
  cases label <;> (unfold allowed; infer_instance)

variable [DecidableEq Tid]

def apply (s : CoroScheduler F H Tid) : Label F H Tid → CoroScheduler F H Tid
  | .loop label => {s with loop := s.loop.apply label}
  | .scheduleResume _ h | .ownScheduleResume h => s.scheduleResume h
  | .resume alive => s.resume alive
  | .suspends => {s with running := false}

def new : CoroScheduler F H Tid := ⟨.new,[],false,[],[]⟩

def machine : Machine (CoroScheduler F H Tid) (Label F H Tid) := .guarded (· = new) allowed apply

-- An event on wakeupFd_ that poll has not reported yet.
def Woken (loop : EventLoop F Tid) : Prop := loop.wakeupFd.edge = true ∧ 0 < loop.wakeupFd.counter

-- Handles leave the queue in the order in which they came, and poll does not
-- sleep on them. scheduleResume itself never writes to wakeupFd_.
structure Served (s : CoroScheduler F H Tid) : Prop where
  order : s.popped.map (·.1) ++ s.pendingCoroutines = s.scheduled
  awake : s.loop.phase = .polling → s.pendingCoroutines ≠ [] → Woken s.loop

-- The drain of the iteration is still to come or under way.
def sweeps : Phase → Bool
  | .handling _ | .resuming => true
  | _ => false

-- Handles come between poll's return and the end of the drain only.
def BeforeDrain (s : CoroScheduler F H Tid) : Label F H Tid → Prop
  | .scheduleResume _ _ | .ownScheduleResume _ => sweeps s.loop.phase = true
  | _ => True

omit [DecidableEq Tid] in
theorem resume_parts (some : s.pendingCoroutines.isEmpty = false) (alive : Bool) : ∃ h rest,
    s.pendingCoroutines = h :: rest ∧ s.resume alive =
      {s with pendingCoroutines := rest,running := alive,popped := s.popped ++ [(h,alive)]} := by
  unfold resume
  cases here : s.pendingCoroutines with
  | nil =>
    rw [here] at some
    cases some
  | cons h rest => exact ⟨h,rest,rfl,rfl⟩

theorem sweeps_kept {loop : EventLoop F Tid} (label : EventLoop.Label F Tid) (able : loop.allowed label)
    (here : sweeps loop.phase = true) (undrained : label ≠ .processPendingResumes) :
    sweeps (loop.apply label).phase = true := by
  cases label with
  | push t cb | ownPush cb | quit t | ownQuit | wakeup t => exact here
  | ownTest =>
    obtain ⟨_,same,_⟩ := loop.apply_ownTest
    rw [same]
    exact here
  | handleRead | handled | pollReturns _ => rfl
  | processPendingResumes => exact absurd rfl undrained
  | loop | check | swap =>
    rw [show loop.phase = _ from able] at here
    cases here
  | runFunctor | functorReturns | functorsDone | destroyFunctor | functorDestroyed | cleared =>
    rw [show loop.phase = _ from able.1] at here
    cases here

-- With all handles scheduled before the drain nothing is left behind it.
def Swept (s : CoroScheduler F H Tid) : Prop := s.pendingCoroutines ≠ [] → sweeps s.loop.phase = true

theorem Swept.step (old : Swept s) (label : Label F H Tid) (able : s.allowed label) (met : s.BeforeDrain label) :
    Swept (s.apply label) := by
  intro some
  cases label with
  | loop label =>
    refine sweeps_kept label able.2 (old some) ?_
    rintro rfl
    exact some (List.isEmpty_iff.mp able.1.1)
  | scheduleResume t h | ownScheduleResume h => exact met
  | resume alive =>
    obtain ⟨h,rest,found,same⟩ := resume_parts able.2.2 alive
    simp only [apply,same]
    rw [able.1]
    rfl
  | suspends => exact old some

theorem order_step (old : s.popped.map (·.1) ++ s.pendingCoroutines = s.scheduled) (label : Label F H Tid)
    (able : s.allowed label) :
    (s.apply label).popped.map (·.1) ++ (s.apply label).pendingCoroutines = (s.apply label).scheduled := by
  cases label with
  | loop label | suspends => exact old
  | scheduleResume t h | ownScheduleResume h =>
    simp only [apply,scheduleResume]
    rw [← old,List.append_assoc]
  | resume alive =>
    obtain ⟨h,rest,found,same⟩ := resume_parts able.2.2 alive
    rw [found] at old
    simp only [apply,same]
    simpa using old

omit [DecidableEq Tid] in
-- Poll does not return to handles that came before the drain.
theorem Swept.served (old : Swept s) (order : s.popped.map (·.1) ++ s.pendingCoroutines = s.scheduled) : Served s := by
  refine ⟨order,fun polling some => ?_⟩
  have here := old some
  rw [polling] at here
  cases here

-- The loop's own steps past the drain touch neither queue.
theorem run_loop {labels : List (EventLoop.Label F Tid)} {loop : EventLoop F Tid}
    (own : ∀ label ∈ labels, EventLoop.finishes label = true) : ∀ s : CoroScheduler F H Tid,
    EventLoop.machine.run s.loop labels = some loop → machine.run s (labels.map .loop) = some {s with loop := loop} := by
  induction labels with
  | nil =>
    intro s ran
    cases Option.some.inj ran
    rfl
  | cons label rest ih =>
    intro s ran
    obtain ⟨middle,taken,ran⟩ := Machine.run_cons_parts ran
    obtain ⟨able,rfl⟩ := Machine.guarded_parts.mp taken
    have reached : s.reaches label := by
      have mine := own label List.mem_cons_self
      cases label <;> trivial
    have taken : s.allowed (.loop label) := ⟨reached,able⟩
    refine (Machine.guarded_run taken).trans ?_
    exact ih (fun other later => own other (List.mem_cons_of_mem _ later)) (s.apply (.loop label)) ran

-- A handle that comes past the drain with no event pending: poll can sleep on it.
theorem late_handle_sleeps (label : Label F H Tid) (able : s.allowed label) (late : ¬s.BeforeDrain label)
    (settled : s.loop.own = false) (running : s.loop.quit = false) (asleep : ¬Woken s.loop) :
    ∃ labels after, machine.run s (label :: labels) = some after ∧ ¬Served after := by
  have past : (∀ woken, s.loop.phase ≠ .handling woken) ∧ s.loop.phase ≠ .resuming := by
    cases label with
    | scheduleResume t h | ownScheduleResume h =>
      refine ⟨fun woken here => late ?_,fun here => late ?_⟩ <;> (simp only [BeforeDrain,here]; rfl)
    | _ => exact absurd trivial late
  have queued : (s.apply label).loop = s.loop ∧ (s.apply label).pendingCoroutines ≠ [] := by
    cases label with
    | scheduleResume t h | ownScheduleResume h => exact ⟨rfl,List.append_ne_nil_of_right_ne_nil _ (List.cons_ne_nil _ _)⟩
    | _ => exact absurd trivial late
  obtain ⟨labels,loop,own,ran,polling,silent⟩ := EventLoop.retires_past_drain settled running past.1 past.2
  refine ⟨labels.map .loop,{s.apply label with loop := loop},?_,fun served => asleep ?_⟩
  · refine (Machine.guarded_run able).trans (run_loop own _ ?_)
    rw [queued.1]
    exact ran
  · have woken := served.awake polling queued.2
    unfold Woken at woken ⊢
    rwa [silent] at woken

-- Handles are resumed in order in every run, and no poll sleeps on one in a run
-- in which all come before the drain of their iteration. One that comes later
-- while no event is pending can be slept on.
theorem in_order_and_served_before_drain :
    (∀ s : CoroScheduler F H Tid, machine.Reached s → s.popped.map (·.1) ++ s.pendingCoroutines = s.scheduled) ∧
    (∀ labels : List (Label F H Tid), machine.Meets BeforeDrain new labels → machine.Throughout Served new labels) ∧
    (∀ s : CoroScheduler F H Tid, machine.Reached s → ∀ label, s.allowed label → ¬s.BeforeDrain label →
      s.loop.own = false → s.loop.quit = false → ¬Woken s.loop →
      ∃ labels after, machine.run s (label :: labels) = some after ∧ ¬Served after) := by
  refine ⟨fun s path => ?_,fun labels met => ?_,fun s _ label => late_handle_sleeps label⟩
  · have kept : (machine : Machine (CoroScheduler F H Tid) (Label F H Tid)).Preserves (fun _ _ => True) fun s =>
        s.popped.map (·.1) ++ s.pendingCoroutines = s.scheduled := by
      refine Machine.guarded_preserves ?_ fun s label old able => order_step old label able
      rintro _ rfl
      rfl
    exact kept.reached path
  · have sound : ∀ s : CoroScheduler F H Tid, Swept s ∧ s.popped.map (·.1) ++ s.pendingCoroutines = s.scheduled → Served s :=
      fun s given => given.1.served given.2
    refine Machine.throughout_of_meets sound ?_ ⟨fun some => absurd rfl some,rfl⟩ met
    intro s label after old met taken
    obtain ⟨able,rfl⟩ := Machine.guarded_parts.mp taken
    exact ⟨Swept.step old.1 label able met,order_step old.2 label able⟩

-- A handler schedules two coroutines, the first of which schedules a third.
def scheduledInHandler : List (Label Nat Nat Bool) :=
  [.loop .loop,.loop .check,.loop (.pollReturns false),.ownScheduleResume 1,.ownScheduleResume 2,.loop .handled,
    .resume true,.ownScheduleResume 3,.suspends,.resume true,.suspends,.resume false,.loop .processPendingResumes,
    .loop .swap,.loop .functorsDone,.loop .cleared,.loop .check]

theorem scheduled_in_handler_served : ∃ s : CoroScheduler Nat Nat Bool, machine.run new scheduledInHandler = some s ∧
    s.popped = [(1,true),(2,true),(3,false)] ∧ s.loop.phase = .polling ∧
    (machine : Machine (CoroScheduler Nat Nat Bool) (Label Nat Nat Bool)).Throughout Served new scheduledInHandler := by
  obtain ⟨_,served,_⟩ := @in_order_and_served_before_drain Nat Nat Bool _
  refine ⟨_,rfl,rfl,rfl,served _ ?_⟩
  refine .cons trivial rfl ?_
  refine .cons trivial rfl ?_
  refine .cons trivial rfl ?_
  refine .cons rfl rfl ?_
  refine .cons rfl rfl ?_
  refine .cons trivial rfl ?_
  refine .cons trivial rfl ?_
  refine ⟨rfl,fun _ _ => Machine.meets_labels ?_⟩
  simp [BeforeDrain]

-- A functor schedules a coroutine, and the loop goes to sleep on it.
theorem scheduled_in_functor_sleeps : ∃ s : CoroScheduler Nat Nat Bool, machine.run new
      [.loop .loop,.loop .check,.loop (.push true 7),.loop (.wakeup true),.loop (.pollReturns true),.loop .handleRead,
        .loop .handled,.loop .processPendingResumes,.loop .swap,.loop .runFunctor,.ownScheduleResume 1,
        .loop .functorReturns,.loop .functorsDone,.loop .destroyFunctor,.loop .functorDestroyed,.loop .cleared,
        .loop .check] = some s ∧
    s.loop.phase = .polling ∧ s.pendingCoroutines = [1] ∧ s.loop.wakeupFd = ⟨0,false⟩ ∧ ¬Served s := by
  refine ⟨_,rfl,rfl,rfl,rfl,fun served => ?_⟩
  obtain ⟨edge,_⟩ := served.awake rfl (by decide)
  cases edge

end CoroScheduler
end NewMuduo
