import NewMuduo.EventLoop

namespace NewMuduo.EventLoop
variable {F Tid : Type} {s : EventLoop F Tid}

-- All functors ever pushed, in the order in which they run.
def line (s : EventLoop F Tid) : List (Queued F) := s.ran.map (·.1) ++ s.functors ++ s.pendingFunctors

structure Ordered (s : EventLoop F Tid) : Prop where
  pushed : s.line.map (·.functor) = s.pushed
  tickets : s.line.map (·.ticket) = List.range s.pushed.length
  ranRound : ∀ entry ∈ s.ran, entry.2 = entry.1.round + 1
  batchRound : ∀ queued ∈ s.functors, queued.round + 1 = s.round
  pendingRound : ∀ queued ∈ s.pendingFunctors, queued.round = s.round
  batch : s.functors ≠ [] → ∃ functor, s.phase = .running functor

theorem Ordered.keep (old : Ordered s) {after : EventLoop F Tid} (pending : after.pendingFunctors = s.pendingFunctors)
    (functors : after.functors = s.functors) (ran : after.ran = s.ran) (pushed : after.pushed = s.pushed)
    (round : after.round = s.round) (batch : s.functors ≠ [] → ∃ functor, after.phase = .running functor) :
    Ordered after := by
  have line : after.line = s.line := by unfold EventLoop.line; rw [pending,functors,ran]
  refine ⟨?_,?_,?_,?_,?_,?_⟩
  · rw [line,pushed]; exact old.pushed
  · rw [line,pushed]; exact old.tickets
  · rw [ran]; exact old.ranRound
  · rw [functors,round]; exact old.batchRound
  · rw [pending,round]; exact old.pendingRound
  · rw [functors]; exact batch

theorem Ordered.push_back (old : Ordered s) (cb : F) : Ordered (s.push_back cb) := by
  have line : (s.push_back cb).line = s.line ++ [⟨cb,s.pushed.length,s.round⟩] := by
    simp [EventLoop.line,EventLoop.push_back]
  refine ⟨?_,?_,old.ranRound,old.batchRound,?_,old.batch⟩
  · rw [line,List.map_append,old.pushed]; rfl
  · rw [line,List.map_append,old.tickets]
    simp [EventLoop.push_back,List.range_succ]
  · intro queued found
    rcases List.mem_append.mp found with earlier | now
    · exact old.pendingRound queued earlier
    · rw [List.mem_singleton.mp now]; rfl

theorem Ordered.no_batch {place : Phase} (old : Ordered s) (here : s.phase = place)
    (other : ∀ functor, place ≠ .running functor) : s.functors = [] := by
  by_contra some
  obtain ⟨functor,running⟩ := old.batch some
  exact other functor (here.symm.trans running)

theorem ordered_new : Ordered (new : EventLoop F Tid) :=
  ⟨rfl,rfl,fun _ found => (by cases found),fun _ found => (by cases found),fun _ found => (by cases found),
    fun some => absurd rfl some⟩

variable [DecidableEq Tid]

-- The list that swap takes is the whole of pendingFunctors_.
theorem Ordered.swap (old : Ordered s) (entering : s.phase = .entering) : Ordered (s.apply .swap) := by
  have empty := old.no_batch entering fun _ same => by cases same
  have line : (s.apply .swap).line = s.line := by simp [EventLoop.line,apply,empty]
  refine ⟨?_,?_,old.ranRound,?_,?_,fun _ => ⟨false,rfl⟩⟩
  · rw [line]; exact old.pushed
  · rw [line]; exact old.tickets
  · intro queued found
    exact congrArg (· + 1) (old.pendingRound queued found)
  · intro queued found
    simp only [apply,empty] at found
    cases found

theorem Ordered.runFunctor (old : Ordered s) (some : s.functors ≠ []) : Ordered (s.apply .runFunctor) := by
  obtain ⟨first,rest,found⟩ := List.exists_cons_of_ne_nil some
  have line : (s.apply .runFunctor).line = s.line := by simp [EventLoop.line,apply,found]
  have rounds := old.batchRound
  rw [found] at rounds
  refine ⟨?_,?_,?_,?_,old.pendingRound,fun _ => ⟨true,rfl⟩⟩
  · rw [line]; exact old.pushed
  · rw [line]; exact old.tickets
  · intro entry ran
    simp only [apply,found,List.head?_cons,Option.toList_some,List.map_cons,List.map_nil] at ran
    rcases List.mem_append.mp ran with earlier | now
    · exact old.ranRound entry earlier
    · rw [List.mem_singleton.mp now]
      exact (rounds first List.mem_cons_self).symm
  · intro queued later
    simp only [apply,found,List.tail_cons] at later
    exact rounds queued (List.mem_cons_of_mem _ later)

theorem Ordered.step (old : Ordered s) (label : Label F Tid) (able : s.allowed label) : Ordered (s.apply label) := by
  cases label with
  | push t cb | ownPush cb => exact (old.push_back cb).keep rfl rfl rfl rfl rfl old.batch
  | quit t | wakeup t | ownQuit => exact old.keep rfl rfl rfl rfl rfl old.batch
  | ownTest =>
    obtain ⟨_,same,_⟩ := s.apply_ownTest
    rw [same]
    exact old.keep rfl rfl rfl rfl rfl old.batch
  -- The loop is not in doPendingFunctors here.
  | loop | check =>
    have empty := old.no_batch able fun _ same => by cases same
    exact old.keep rfl rfl rfl rfl rfl fun some => absurd empty some
  | pollReturns _ | handleRead | handled | processPendingResumes =>
    have empty := old.no_batch able.1 fun _ same => by cases same
    exact old.keep rfl rfl rfl rfl rfl fun some => absurd empty some
  | swap => exact old.swap able
  | runFunctor => exact old.runFunctor able.2
  | functorReturns => exact old.keep rfl rfl rfl rfl rfl fun _ => ⟨false,rfl⟩
  | functorsDone => exact old.keep rfl rfl rfl rfl rfl fun some => absurd able.2 some
  | destroyFunctor | functorDestroyed | cleared =>
    have empty := old.no_batch able.1 fun _ same => by cases same
    exact old.keep rfl rfl rfl rfl rfl fun some => absurd empty some

-- A wakeup that poll has not seen, or that a caller owes.
def Armed (s : EventLoop F Tid) : Prop :=
  (s.wakeupFd.edge = true ∧ 0 < s.wakeupFd.counter) ∨ ∃ t, s.callers t = .pushed

-- From the return of poll to the swap the loop thread needs no wakeup: it is
-- on its way to the queue.
def bound : Phase → Bool
  | .handling _ | .resuming | .entering => true
  | _ => false

def calls : Phase → Bool
  | .entering | .running _ => true
  | _ => false

-- The flag is up from the entry of doPendingFunctors to the end of its loop.
theorem calling_step (old : s.callingPendingFunctors = calls s.phase) (label : Label F Tid) (able : s.allowed label) :
    (s.apply label).callingPendingFunctors = calls (s.apply label).phase := by
  cases label with
  | push t cb | quit t | wakeup t | ownPush cb | ownQuit => exact old
  | ownTest =>
    obtain ⟨_,same,_⟩ := s.apply_ownTest
    rw [same]
    exact old
  | check =>
    refine old.trans ?_
    rw [show s.phase = .check from able]
    unfold apply
    dsimp only
    split <;> rfl
  | loop | swap => exact old.trans (by rw [show s.phase = _ from able]; rfl)
  | pollReturns _ | handleRead | handled | runFunctor | functorReturns | destroyFunctor | functorDestroyed | cleared =>
    exact old.trans (by rw [show s.phase = _ from able.1]; rfl)
  | processPendingResumes | functorsDone => rfl

theorem ordered_kept : (machine : Machine (EventLoop F Tid) (Label F Tid)).Preserves (fun _ _ => True) fun s =>
    Ordered s ∧ s.callingPendingFunctors = calls s.phase := by
  refine Machine.guarded_preserves ?_ ?_
  · rintro _ rfl
    exact ⟨ordered_new,rfl⟩
  · intro s label given able
    obtain ⟨ordered,calling⟩ := given
    exact ⟨ordered.step label able,calling_step calling label able⟩

-- No destructor of what a functor holds queues a functor: callingPendingFunctors_
-- is false again when doPendingFunctors destroys its vector.
def NotWhileClearing (s : EventLoop F Tid) : Label F Tid → Prop
  | .ownPush _ => s.phase ≠ .clearing true
  | _ => True

instance (s : EventLoop F Tid) : ∀ label : Label F Tid, Decidable (s.NotWhileClearing label)
  | .ownPush _ => inferInstanceAs (Decidable (_ ≠ _))
  | .push .. | .quit _ | .wakeup _ | .ownTest | .ownQuit | .loop | .check | .pollReturns _ | .handleRead | .handled
  | .processPendingResumes | .swap | .runFunctor | .functorReturns | .functorsDone | .destroyFunctor | .functorDestroyed
  | .cleared => .isTrue trivial

structure Awake (s : EventLoop F Tid) : Prop where
  own : s.own = true → userRuns s.phase = true ∧ s.phase ≠ .clearing true
  armed : bound s.phase = false → s.pendingFunctors ≠ [] → s.own = true ∨ Armed s

omit [DecidableEq Tid] in
theorem awake_new : Awake (new : EventLoop F Tid) :=
  ⟨fun owed => (by cases owed),fun _ some => absurd rfl some⟩

omit [DecidableEq Tid] in
-- A step of loop() itself, which the loop thread takes when it owes no test.
theorem Awake.move (old : Awake s) {after : EventLoop F Tid} (settled : s.own = false) (own : after.own = s.own)
    (armed : bound after.phase = false → bound s.phase = false ∧ after.callers = s.callers ∧
      after.wakeupFd = s.wakeupFd ∧ after.pendingFunctors = s.pendingFunctors ∨ after.pendingFunctors = []) :
    Awake after := by
  refine ⟨fun owed => ?_,fun free some => ?_⟩
  · rw [own,settled] at owed; cases owed
  · rcases armed free with ⟨before,callers,wakeupFd,pending⟩ | empty
    · rw [pending] at some
      rcases old.armed before some with owed | armed
      · rw [settled] at owed; cases owed
      · unfold Armed
        rw [wakeupFd,callers]
        exact .inr armed
    · exact absurd empty some

omit [DecidableEq Tid] in
theorem Awake.settled (old : Awake s) (here : userRuns s.phase = false) : s.own = false := by
  cases owed : s.own with
  | false => rfl
  | true => rw [(old.own owed).1] at here; cases here

theorem Armed.update (armed : Armed s) (idle : s.callers t ≠ .pushed) (caller : Caller) :
    Armed {s with callers := Function.update s.callers t caller} := by
  refine armed.imp_right ?_
  intro given
  obtain ⟨other,pushed⟩ := given
  have apart : other ≠ t := fun same => idle (same ▸ pushed)
  exact ⟨other,(Function.update_of_ne apart _ _).trans pushed⟩

-- The loop thread skips wakeup() only where it is on its way to the queue.
theorem Awake.ownTest (old : Awake s) (calling : s.callingPendingFunctors = calls s.phase) (owed : s.own = true) :
    Awake (s.apply .ownTest) := by
  unfold apply
  dsimp only
  split
  · exact ⟨fun owed => (by cases owed),fun _ _ => .inr (.inl ⟨rfl,Nat.succ_pos _⟩)⟩
  · rename_i skipped
    refine ⟨fun owed => (by cases owed),fun free _ => ?_⟩
    obtain ⟨runs,before⟩ := old.own owed
    rw [calling] at skipped
    change bound s.phase = false at free
    cases here : s.phase with
    | handling woken | resuming | entering =>
      rw [here] at free
      cases free
    | running functor =>
      rw [here] at skipped
      exact absurd rfl skipped
    | clearing functor =>
      rw [here] at runs before
      cases functor with
      | true => exact absurd rfl before
      | false => cases runs
    | idle | check | polling =>
      rw [here] at runs
      cases runs

theorem Awake.step (old : Awake s) (ordered : Ordered s) (calling : s.callingPendingFunctors = calls s.phase)
    (label : Label F Tid) (able : s.allowed label) (met : s.NotWhileClearing label) : Awake (s.apply label) := by
  cases label with
  | push t cb => exact ⟨old.own,fun _ _ => .inr (.inr ⟨t,Function.update_self _ _ _⟩)⟩
  | quit t =>
    have idle : s.callers t ≠ .pushed := by rw [show s.callers t = .idle from able]; decide
    exact ⟨old.own,fun free some => (old.armed free some).imp_right fun armed => armed.update idle _⟩
  | wakeup t => exact ⟨old.own,fun _ _ => .inr (.inl ⟨rfl,Nat.succ_pos _⟩)⟩
  | ownPush cb => exact ⟨fun _ => ⟨able.1,met⟩,fun _ _ => .inl rfl⟩
  | ownTest => exact old.ownTest calling able
  | ownQuit => exact ⟨old.own,old.armed⟩
  | loop | check =>
    have here : s.phase = _ := able
    exact old.move (old.settled (by rw [here]; rfl)) rfl fun _ => .inl ⟨by rw [here]; rfl,rfl,rfl,rfl⟩
  | pollReturns woken => exact old.move (old.settled (by rw [able.1]; rfl)) rfl fun free => (by cases free)
  | handleRead | handled | processPendingResumes => exact old.move able.2 rfl fun free => (by cases free)
  | swap =>
    have here : s.phase = .entering := able
    refine old.move (old.settled (by rw [here]; rfl)) rfl fun _ => .inr ?_
    exact ordered.no_batch here fun _ same => by cases same
  | functorReturns | functorDestroyed => exact old.move able.2 rfl fun _ => .inl ⟨by rw [able.1]; rfl,rfl,rfl,rfl⟩
  | runFunctor | functorsDone | destroyFunctor | cleared =>
    exact old.move (old.settled (by rw [able.1]; rfl)) rfl fun _ => .inl ⟨by rw [able.1]; rfl,rfl,rfl,rfl⟩

theorem awake_kept : (machine : Machine (EventLoop F Tid) (Label F Tid)).Preserves NotWhileClearing fun s =>
    (Ordered s ∧ s.callingPendingFunctors = calls s.phase) ∧ Awake s := by
  refine ⟨?_,?_⟩
  · rintro _ rfl
    exact ⟨⟨ordered_new,rfl⟩,awake_new⟩
  · intro s label after given met taken
    obtain ⟨known,awake⟩ := given
    refine ⟨ordered_kept.step s label after known trivial taken,?_⟩
    obtain ⟨able,rfl⟩ := Machine.guarded_parts.mp taken
    exact awake.step known.1 known.2 label able met

-- The steps of the loop thread from the end of the drain to poll.
def finishes : Label F Tid → Bool
  | .loop | .check | .swap | .runFunctor | .functorReturns | .functorsDone | .destroyFunctor | .functorDestroyed
  | .cleared => true
  | _ => false

-- The functors of the batch that are left are destroyed and the iteration ends.
theorem run_cleared (spent : Nat) : ∀ s : EventLoop F Tid, s.phase = .clearing false → s.own = false → s.spent = spent →
    ∃ labels, (∀ label ∈ labels, finishes label = true) ∧ machine.run s labels = some {s with phase := .check,spent := 0} := by
  induction spent with
  | zero =>
    intro s here _ none
    refine ⟨[.cleared],by simp [finishes],?_⟩
    refine (Machine.guarded_run (show s.allowed .cleared from ⟨here,none⟩)).trans ?_
    rw [← none]
    rfl
  | succ spent ih =>
    intro s here settled left
    have able : s.allowed .destroyFunctor := ⟨here,by omega⟩
    have next : (s.apply .destroyFunctor).allowed .functorDestroyed := ⟨rfl,settled⟩
    obtain ⟨labels,own,ran⟩ := ih ((s.apply .destroyFunctor).apply .functorDestroyed) rfl settled (by simp [apply,left])
    refine ⟨.destroyFunctor :: .functorDestroyed :: labels,by simpa [finishes] using own,?_⟩
    exact (Machine.guarded_run able).trans ((Machine.guarded_run next).trans ran)

-- So are those still to run, once they have run and queued nothing.
theorem run_batch (functors : List (Queued F)) : ∀ s : EventLoop F Tid, s.phase = .running false → s.own = false →
    s.functors = functors → ∃ labels after, (∀ label ∈ labels, finishes label = true) ∧ machine.run s labels = some after ∧
      after.phase = .clearing false ∧ after.own = false ∧ after.quit = s.quit ∧ after.wakeupFd = s.wakeupFd := by
  induction functors with
  | nil =>
    intro s here settled empty
    refine ⟨[.functorsDone],s.apply .functorsDone,by simp [finishes],?_,rfl,settled,rfl,rfl⟩
    exact Machine.guarded_run (show s.allowed .functorsDone from ⟨here,empty⟩)
  | cons first rest ih =>
    intro s here settled found
    have able : s.allowed .runFunctor := ⟨here,by rw [found]; exact List.cons_ne_nil _ _⟩
    have next : (s.apply .runFunctor).allowed .functorReturns := ⟨rfl,settled⟩
    obtain ⟨labels,after,own,ran,last⟩ := ih ((s.apply .runFunctor).apply .functorReturns) rfl settled (by simp [apply,found])
    refine ⟨.runFunctor :: .functorReturns :: labels,after,by simpa [finishes] using own,?_,last⟩
    exact (Machine.guarded_run able).trans ((Machine.guarded_run next).trans ran)

-- The loop thread gets to poll by these steps without writing to wakeupFd_.
def Retires (s : EventLoop F Tid) : Prop := ∃ labels after, (∀ label ∈ labels, finishes label = true) ∧
  machine.run s labels = some after ∧ after.phase = .polling ∧ after.wakeupFd = s.wakeupFd

theorem Retires.after {first : List (Label F Tid)} {middle : EventLoop F Tid} (rest : Retires middle)
    (own : ∀ label ∈ first, finishes label = true) (ran : machine.run s first = some middle)
    (same : middle.wakeupFd = s.wakeupFd) : Retires s := by
  obtain ⟨labels,after,others,later,polling,last⟩ := rest
  refine ⟨first ++ labels,after,?_,(Machine.run_append ran).trans later,polling,last.trans same⟩
  intro label member
  exact (List.mem_append.mp member).elim (own label) (others label)

theorem Retires.step {label : Label F Tid} (rest : Retires (s.apply label)) (able : s.allowed label)
    (own : finishes label = true) (same : (s.apply label).wakeupFd = s.wakeupFd) : Retires s :=
  rest.after (fun _ member => List.mem_singleton.mp member ▸ own) (Machine.guarded_run able) same

theorem retires_check (here : s.phase = .check) (running : s.quit = false) : Retires s :=
  ⟨[.check],s.apply .check,by simp [finishes],Machine.guarded_run (show s.allowed .check from here),by simp [apply,running],rfl⟩

theorem retires_clearing (here : s.phase = .clearing false) (settled : s.own = false) (running : s.quit = false) :
    Retires s := by
  obtain ⟨labels,own,ran⟩ := run_cleared s.spent s here settled rfl
  have checks : Retires {s with phase := .check,spent := 0} := retires_check rfl running
  exact checks.after own ran rfl

theorem retires_running (here : s.phase = .running false) (settled : s.own = false) (running : s.quit = false) :
    Retires s := by
  obtain ⟨labels,after,own,ran,later,still,quit,same⟩ := run_batch s.functors s here settled rfl
  exact (retires_clearing later still (quit.trans running)).after own ran same

-- From anywhere between the end of the drain and the next return of poll.
theorem retires_past_drain (settled : s.own = false) (running : s.quit = false) (past : ∀ woken, s.phase ≠ .handling woken)
    (drained : s.phase ≠ .resuming) : Retires s := by
  cases here : s.phase with
  | idle => exact (retires_check rfl rfl).step (show s.allowed .loop from here) rfl rfl
  | check => exact retires_check here running
  | polling => exact ⟨[],s,by simp,rfl,here,rfl⟩
  | handling woken => exact absurd here (past woken)
  | resuming => exact absurd here drained
  | entering =>
    have begun : Retires (s.apply .swap) := retires_running rfl settled running
    exact begun.step here rfl rfl
  | running functor =>
    cases functor with
    | false => exact retires_running here settled running
    | true =>
      have ended : Retires (s.apply .functorReturns) := retires_running rfl settled running
      exact ended.step ⟨here,settled⟩ rfl rfl
  | clearing functor =>
    cases functor with
    | false => exact retires_clearing here settled running
    | true =>
      have ended : Retires (s.apply .functorDestroyed) := retires_clearing rfl settled running
      exact ended.step ⟨here,settled⟩ rfl rfl

-- A destructor of the batch queues a functor where nobody else has announced
-- one: the loop can go to sleep on it.
theorem destructor_queues (here : s.phase = .clearing true) (settled : s.own = false) (running : s.quit = false)
    (calling : s.callingPendingFunctors = calls s.phase) (asleep : ¬Armed s) (cb : F) :
    ∃ labels after, machine.run s (.ownPush cb :: labels) = some after ∧
      after.phase = .polling ∧ after.pendingFunctors ≠ [] ∧ ¬Armed after := by
  let queued := ((s.apply (.ownPush cb)).apply .ownTest).apply .functorDestroyed
  have silent : (s.apply (.ownPush cb)).apply .ownTest = {s.push_back cb with own := false} := by
    rw [here] at calling
    simp [apply,push_back,calling,calls]
  have same : queued = {s.push_back cb with own := false,phase := .clearing false} := by
    simp only [queued,silent]
    rfl
  obtain ⟨labels,_,cleared⟩ := run_cleared queued.spent queued rfl (by rw [same]) rfl
  refine ⟨.ownTest :: .functorDestroyed :: (labels ++ [.check]),({queued with phase := .check,spent := 0}).apply .check,?_,?_,?_,?_⟩
  · have able : s.allowed (.ownPush cb) := ⟨by rw [here]; rfl,settled⟩
    have tests : (s.apply (.ownPush cb)).allowed .ownTest := rfl
    have ends : ((s.apply (.ownPush cb)).apply .ownTest).allowed .functorDestroyed := by
      rw [silent]
      exact ⟨here,rfl⟩
    refine (Machine.guarded_run able).trans ((Machine.guarded_run tests).trans ((Machine.guarded_run ends).trans ?_))
    exact (Machine.run_append cleared).trans (Machine.guarded_run (show EventLoop.allowed _ .check from rfl))
  · simp [apply,same,push_back,running]
  · simp [apply,same,push_back]
  · rw [same]
    exact asleep

-- The i-th functor to run is the i-th pushed, in the round after the swap that
-- follows its push.
theorem ordered_parts (path : machine.Reached s) :
    s.ran.map (·.1.ticket) = List.range s.ran.length ∧
    s.ran.map (·.1.functor) <+: s.pushed ∧
    (∀ entry ∈ s.ran, entry.2 = entry.1.round + 1) := by
  obtain ⟨ordered,_⟩ := ordered_kept.reached path
  refine ⟨?_,?_,ordered.ranRound⟩
  · have tickets := congrArg (List.take s.ran.length) ordered.tickets
    simp only [line,List.map_append,List.map_map,List.append_assoc] at tickets
    rw [List.take_append_of_le_length (by rw [List.length_map]),List.take_of_length_le (by rw [List.length_map]),
      List.take_range] at tickets
    have length := congrArg List.length tickets
    rw [List.length_map,List.length_range] at length
    rw [← length] at tickets
    exact tickets
  · have pushed := ordered.pushed
    simp only [line,List.map_append,List.map_map,List.append_assoc] at pushed
    exact ⟨_,pushed⟩

-- Poll never sleeps on a queue that nobody will announce.
theorem polling_armed (path : machine.ReachedUnder NotWhileClearing s) (polling : s.phase = .polling)
    (some : s.pendingFunctors ≠ []) : Armed s := by
  obtain ⟨_,awake⟩ := awake_kept.reached path
  have settled := awake.settled (by rw [polling]; rfl)
  refine (awake.armed (by rw [polling]; rfl) some).resolve_left fun owed => ?_
  rw [settled] at owed
  cases owed

-- Functors run in order in every run, and no wakeup is lost as long as no
-- destructor of the batch queues a functor; one that does can lose it.
theorem in_order_and_awake_before_clearing :
    (∀ s : EventLoop F Tid, machine.Reached s →
      s.ran.map (·.1.ticket) = List.range s.ran.length ∧
      s.ran.map (·.1.functor) <+: s.pushed ∧
      (∀ entry ∈ s.ran, entry.2 = entry.1.round + 1)) ∧
    (∀ s : EventLoop F Tid, machine.ReachedUnder NotWhileClearing s → s.phase = .polling → s.pendingFunctors ≠ [] → Armed s) ∧
    (∀ s : EventLoop F Tid, machine.Reached s → s.phase = .clearing true → s.own = false → s.quit = false → ¬Armed s →
      ∀ cb, ∃ labels after, machine.run s (.ownPush cb :: labels) = some after ∧
        after.phase = .polling ∧ after.pendingFunctors ≠ [] ∧ ¬Armed after) := by
  refine ⟨fun s path => ordered_parts path,fun s path polling some => polling_armed path polling some,?_⟩
  intro s path here settled running asleep cb
  exact destructor_queues here settled running (ordered_kept.reached path).2 asleep cb

-- A functor of another thread queues one more and the loop polls again.
def requeue : List (Label Nat Bool) :=
  [.push true 7,.wakeup true,.loop,.check,.pollReturns true,.handleRead,.handled,.processPendingResumes,
    .swap,.runFunctor,.ownPush 8,.ownTest,.functorReturns,.functorsDone,.destroyFunctor,.functorDestroyed,.cleared,.check]

theorem functor_requeues : ∃ s, machine.run new requeue = some s ∧
    s.ran.map (·.1.functor) = [7] ∧ s.pendingFunctors.map (·.functor) = [8] ∧ s.phase = .polling ∧
    s.ran.map (·.1.ticket) = List.range s.ran.length ∧ Armed s := by
  refine ⟨_,rfl,rfl,rfl,rfl,?_⟩
  obtain ⟨inOrder,awake,_⟩ := @in_order_and_awake_before_clearing Nat Bool _
  have path := @Machine.Reached.run _ _ machine new requeue _ (.start rfl) rfl
  have met : machine.Meets NotWhileClearing new requeue := by decide
  exact ⟨(inOrder _ path).1,awake _ (Machine.ReachedUnder.along (.start rfl) met rfl) rfl (by decide)⟩

-- What the functor holds queues one more when it is destroyed.
theorem destructor_queues_and_loop_sleeps : ∃ s : EventLoop Nat Bool, machine.run new
      [.push true 7,.wakeup true,.loop,.check,.pollReturns true,.handleRead,.handled,.processPendingResumes,.swap,
        .runFunctor,.functorReturns,.functorsDone,.destroyFunctor,.ownPush 8,.ownTest,.functorDestroyed,.cleared,.check] = some s ∧
    s.phase = .polling ∧ s.pendingFunctors.map (·.functor) = [8] ∧ s.wakeupFd = ⟨0,false⟩ ∧ ¬Armed s := by
  refine ⟨_,rfl,rfl,rfl,rfl,?_⟩
  intro armed
  rcases armed with ⟨edge,_⟩ | ⟨t,pushed⟩
  · cases edge
  · cases t <;> cases pushed

end NewMuduo.EventLoop
