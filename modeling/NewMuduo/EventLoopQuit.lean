import NewMuduo.EventLoopQueue

namespace NewMuduo.EventLoop

-- The loop with what its callers know: the place in the queue of the functor
-- each thread is queueing, the functors whose queueInLoop has returned, and
-- those of them that had returned when the first quit() after loop() was called.
structure Quitting (F Tid : Type) where
  loop : EventLoop F Tid
  posting : Tid → Nat
  ownPosting : Nat
  returned : List Nat
  due : List Nat

namespace Quitting
variable {F Tid : Type} [DecidableEq Tid] {s after : Quitting F Tid}

def called (s : Quitting F Tid) : List Nat := if s.loop.quit || s.loop.phase = .idle then s.due else s.returned

def apply (s : Quitting F Tid) (label : Label F Tid) : Quitting F Tid :=
  let loop := s.loop.apply label
  match label with
  | .push t _ => {s with loop := loop,posting := Function.update s.posting t s.loop.pushed.length}
  | .wakeup t => {s with
      loop := loop
      returned := if s.loop.callers t = .pushed then s.returned ++ [s.posting t] else s.returned}
  | .ownPush _ => {s with loop := loop,ownPosting := s.loop.pushed.length}
  | .ownTest => {s with loop := loop,returned := s.returned ++ [s.ownPosting]}
  | .quit _ | .ownQuit => {s with loop := loop,due := s.called}
  | .loop => {s with loop := loop,due := []}
  | _ => {s with loop := loop}

def new : Quitting F Tid := ⟨.new,fun _ => 0,0,[],[]⟩

def machine : Machine (Quitting F Tid) (Label F Tid) :=
  .guarded (· = new) (fun s label => s.loop.allowed label) apply

-- When loop() has returned, what was queued before quit() has run.
def Drained (s : Quitting F Tid) : Prop :=
  s.loop.phase = .idle → ∀ ticket ∈ s.due, ticket ∈ s.loop.ran.map (·.1.ticket)

-- The iteration under way still comes to the swap of doPendingFunctors.
def ahead : Phase → Bool
  | .polling | .handling _ | .resuming | .entering => true
  | _ => false

-- quit_ is set before the swap, or leaves nothing behind it.
def SwapAhead (s : Quitting F Tid) : Label F Tid → Prop
  | .quit _ | .ownQuit => s.loop.quit = false → s.loop.phase ≠ .idle → ahead s.loop.phase = false →
      ∀ queued ∈ s.loop.pendingFunctors, queued.ticket ∉ s.returned
  | _ => True

-- Where the functor of a ticket is.
def Covers (loop : EventLoop F Tid) (ticket : Nat) : Prop :=
  ticket ∈ loop.ran.map (·.1.ticket) ∨ ticket ∈ loop.functors.map (·.ticket) ∨
    ticket ∈ loop.pendingFunctors.map (·.ticket) ∧ ahead loop.phase = true

structure Known (s : Quitting F Tid) : Prop where
  ordered : Ordered s.loop
  posting : ∀ t, s.loop.callers t = .pushed → s.posting t < s.loop.pushed.length
  own : s.loop.own = true → s.ownPosting < s.loop.pushed.length
  returned : ∀ ticket ∈ s.returned, ticket < s.loop.pushed.length
  covers : ∀ ticket ∈ s.due, Covers s.loop ticket

theorem Covers.step {loop : EventLoop F Tid} {ticket : Nat} (old : Covers loop ticket) (ordered : Ordered loop)
    (label : Label F Tid) (able : loop.allowed label) : Covers (loop.apply label) ticket := by
  rcases old with ran | batch | ⟨pending,near⟩
  · refine .inl ?_
    cases label with
    | runFunctor =>
      simp only [EventLoop.apply,List.map_append]
      exact List.mem_append_left _ ran
    | ownTest =>
      obtain ⟨_,same,_⟩ := loop.apply_ownTest
      rw [same]
      exact ran
    | _ => exact ran
  · cases label with
    | runFunctor =>
      obtain ⟨first,rest,found⟩ := List.exists_cons_of_ne_nil able.2
      rw [found,List.map_cons,List.mem_cons] at batch
      rcases batch with now | later
      · refine .inl ?_
        simp [EventLoop.apply,found,now]
      · refine .inr (.inl ?_)
        simpa [EventLoop.apply,found] using later
    | swap =>
      rw [ordered.no_batch able fun _ same => by cases same] at batch
      cases batch
    | ownTest =>
      obtain ⟨_,same,_⟩ := loop.apply_ownTest
      rw [same]
      exact .inr (.inl batch)
    | _ => exact .inr (.inl batch)
  · cases label with
    | push t cb | ownPush cb =>
      refine .inr (.inr ⟨?_,near⟩)
      simp only [EventLoop.apply,push_back,List.map_append]
      exact List.mem_append_left _ pending
    | ownTest =>
      obtain ⟨_,same,_⟩ := loop.apply_ownTest
      rw [same]
      exact .inr (.inr ⟨pending,near⟩)
    | swap => exact .inr (.inl pending)
    | pollReturns _ | handleRead | handled | processPendingResumes => exact .inr (.inr ⟨pending,rfl⟩)
    | loop | check =>
      rw [show loop.phase = _ from able] at near
      cases near
    | runFunctor | functorReturns | functorsDone | destroyFunctor | functorDestroyed | cleared =>
      rw [show loop.phase = _ from able.1] at near
      cases near
    | quit _ | wakeup _ | ownQuit => exact .inr (.inr ⟨pending,near⟩)

omit [DecidableEq Tid] in
theorem known_new : Known (new : Quitting F Tid) :=
  ⟨ordered_new,fun _ pushed => (by cases pushed),fun own => (by cases own),fun _ absent => (by cases absent),
    fun _ absent => (by cases absent)⟩

omit [DecidableEq Tid] in
-- A functor that has been queued has run, is in the batch or waits.
theorem Known.place (old : Known s) (ticket : Nat) (below : ticket < s.loop.pushed.length) :
    ticket ∈ s.loop.ran.map (·.1.ticket) ∨ ticket ∈ s.loop.functors.map (·.ticket) ∨
      ticket ∈ s.loop.pendingFunctors.map (·.ticket) := by
  have member : ticket ∈ s.loop.line.map (·.ticket) := by
    rw [old.ordered.tickets]
    exact List.mem_range.mpr below
  simp only [line,List.map_append,List.map_map,List.mem_append] at member
  exact or_assoc.mp member

omit [DecidableEq Tid] in
theorem Known.due (old : Known s) (met : s.loop.quit = false → s.loop.phase ≠ .idle → ahead s.loop.phase = false →
    ∀ queued ∈ s.loop.pendingFunctors, queued.ticket ∉ s.returned) : ∀ ticket ∈ s.called, Covers s.loop ticket := by
  intro ticket listed
  unfold called at listed
  split at listed
  · exact old.covers ticket listed
  · rename_i first
    simp only [Bool.or_eq_true,decide_eq_true_eq,not_or,Bool.not_eq_true] at first
    rcases old.place ticket (old.returned ticket listed) with ran | batch | pending
    · exact .inl ran
    · exact .inr (.inl batch)
    · refine .inr (.inr ⟨pending,?_⟩)
      by_contra past
      obtain ⟨queued,waits,rfl⟩ := List.mem_map.mp pending
      exact met first.1 first.2 (Bool.not_eq_true _ ▸ past) queued waits listed

theorem apply_loop (label : Label F Tid) : (s.apply label).loop = s.loop.apply label := by
  cases label <;> rfl

theorem pushed_le (loop : EventLoop F Tid) (label : Label F Tid) : loop.pushed.length ≤ (loop.apply label).pushed.length := by
  cases label with
  | push t cb | ownPush cb => simp [EventLoop.apply,push_back]
  | ownTest =>
    obtain ⟨_,same,_⟩ := loop.apply_ownTest
    rw [same]
  | _ => exact Nat.le_refl _

-- A thread that goes on to another call is not between push and wakeup.
theorem pushed_before {callers : Tid → Caller} {t u : Tid} {place : Caller} (other : place ≠ .pushed)
    (pushed : Function.update callers t place u = .pushed) : callers u = .pushed := by
  by_cases same : u = t
  · rw [same,Function.update_self] at pushed
    exact absurd pushed other
  · rwa [Function.update_of_ne same] at pushed

theorem Known.step (old : Known s) (label : Label F Tid) (able : s.loop.allowed label) (met : s.SwapAhead label) :
    Known (s.apply label) := by
  have ordered := old.ordered.step label able
  have covers : ∀ ticket ∈ s.due, Covers (s.loop.apply label) ticket :=
    fun ticket listed => (old.covers ticket listed).step old.ordered label able
  have grows := pushed_le s.loop label
  have returned : ∀ ticket ∈ s.returned, ticket < (s.loop.apply label).pushed.length :=
    fun ticket listed => Nat.lt_of_lt_of_le (old.returned ticket listed) grows
  cases label with
  | push t cb =>
    refine ⟨ordered,?_,fun own => Nat.lt_of_lt_of_le (old.own own) grows,returned,covers⟩
    intro u pushed
    dsimp only [Quitting.apply] at pushed ⊢
    by_cases same : u = t
    · rw [same,Function.update_self]
      simp [EventLoop.apply,push_back]
    · rw [Function.update_of_ne same]
      exact Nat.lt_of_lt_of_le (old.posting u ((Function.update_of_ne same _ _).symm.trans pushed)) grows
  | ownPush cb =>
    refine ⟨ordered,fun u pushed => Nat.lt_of_lt_of_le (old.posting u pushed) grows,fun _ => ?_,returned,covers⟩
    simp [Quitting.apply,EventLoop.apply,push_back]
  | wakeup t =>
    refine ⟨ordered,fun u pushed => old.posting u (pushed_before Caller.noConfusion pushed),old.own,?_,covers⟩
    intro ticket listed
    dsimp only [Quitting.apply] at listed
    split at listed
    · rename_i pushed
      rcases List.mem_append.mp listed with earlier | now
      · exact old.returned ticket earlier
      · rw [List.mem_singleton.mp now]
        exact old.posting t pushed
    · exact old.returned ticket listed
  | ownTest =>
    obtain ⟨_,same,_⟩ := s.loop.apply_ownTest
    rw [← apply_loop] at ordered same
    refine ⟨ordered,?_,?_,?_,covers⟩
    · rw [same]
      exact old.posting
    · rw [same]
      intro still
      cases still
    · rw [same]
      intro ticket listed
      rcases List.mem_append.mp listed with earlier | now
      · exact old.returned ticket earlier
      · rw [List.mem_singleton.mp now]
        exact old.own able
  | quit t =>
    have due := fun ticket listed => (old.due met ticket listed).step old.ordered _ able
    exact ⟨ordered,fun u pushed => old.posting u (pushed_before Caller.noConfusion pushed),old.own,returned,due⟩
  | ownQuit =>
    exact ⟨ordered,old.posting,old.own,returned,fun ticket listed => (old.due met ticket listed).step old.ordered _ able⟩
  | loop => exact ⟨ordered,old.posting,old.own,returned,fun _ absent => by cases absent⟩
  | check | pollReturns _ | handleRead | handled | processPendingResumes | swap | runFunctor | functorReturns
  | functorsDone | destroyFunctor | functorDestroyed | cleared => exact ⟨ordered,old.posting,old.own,returned,covers⟩

omit [DecidableEq Tid] in
-- loop() returns between its iterations, where nothing waits for a swap.
theorem Known.drained (old : Known s) : Drained s := by
  intro idle ticket listed
  rcases old.covers ticket listed with ran | batch | ⟨_,near⟩
  · exact ran
  · rw [old.ordered.no_batch idle fun _ same => by cases same] at batch
    cases batch
  · rw [idle] at near
    cases near

-- A functor due behind the last swap of this loop().
def Stranded (s : Quitting F Tid) : Prop :=
  Ordered s.loop ∧ s.loop.quit = true ∧ s.loop.phase ≠ .idle ∧ ahead s.loop.phase = false ∧
    ∃ queued ∈ s.loop.pendingFunctors, queued.ticket ∈ s.due

theorem Known.strands (old : Known s) (label : Label F Tid) (able : s.loop.allowed label) (late : ¬s.SwapAhead label) :
    Stranded (s.apply label) := by
  have later := old.ordered.step label able
  cases label with
  | quit t | ownQuit =>
    simp only [SwapAhead,not_forall,not_not] at late
    obtain ⟨first,running,past,queued,waits,listed⟩ := late
    refine ⟨later,rfl,running,past,queued,waits,?_⟩
    change queued.ticket ∈ s.called
    unfold called
    simp only [first,running,Bool.false_or,decide_false]
    exact listed
  | _ => exact absurd trivial late

omit [DecidableEq Tid] in
theorem ran_apart {loop : EventLoop F Tid} (ordered : Ordered loop) {queued : Queued F}
    (waits : queued ∈ loop.pendingFunctors) : queued.ticket ∉ loop.ran.map (·.1.ticket) := by
  have once : (loop.line.map (·.ticket)).Nodup := by
    rw [ordered.tickets]
    exact List.nodup_range
  simp only [line,List.map_append,List.map_map,List.append_assoc] at once
  intro ran
  have last := List.mem_append_right (loop.functors.map (·.ticket)) (List.mem_map_of_mem (f := fun q : Queued F => q.ticket) waits)
  exact (List.nodup_append.mp once).2.2 _ ran _ last rfl

theorem stranded_fate (old : Stranded s) (label : Label F Tid) (able : s.loop.allowed label) :
    Stranded (s.apply label) ∨ ¬Drained (s.apply label) := by
  obtain ⟨ordered,requested,running,past,queued,waits,listed⟩ := old
  have later := ordered.step label able
  cases label with
  | push t cb | ownPush cb =>
    refine .inl ⟨later,requested,running,past,queued,?_,listed⟩
    exact List.mem_append_left _ waits
  | wakeup t => exact .inl ⟨later,requested,running,past,queued,waits,listed⟩
  | ownTest =>
    obtain ⟨_,same,_⟩ := s.loop.apply_ownTest
    refine .inl ⟨later,?_⟩
    rw [apply_loop,same]
    exact ⟨requested,running,past,queued,waits,listed⟩
  | quit t | ownQuit =>
    have same : s.called = s.due := by
      unfold called
      rw [requested]
      rfl
    refine .inl ⟨later,rfl,running,past,queued,waits,?_⟩
    change queued.ticket ∈ s.called
    rw [same]
    exact listed
  | loop => exact absurd able running
  | check =>
    refine .inr fun drained => ran_apart ordered waits (drained ?_ _ listed)
    simp [Quitting.apply,EventLoop.apply,requested]
  | pollReturns _ | handleRead | handled | processPendingResumes =>
    rw [show s.loop.phase = _ from able.1] at past
    cases past
  | swap =>
    rw [show s.loop.phase = _ from able] at past
    cases past
  | runFunctor | functorReturns | functorsDone | destroyFunctor | functorDestroyed | cleared =>
    exact .inl ⟨later,requested,by simp [Quitting.apply,EventLoop.apply],rfl,queued,waits,listed⟩

-- What was queued before quit() has run when loop() returns, if and (in a run
-- that ends after it) only if quit_ was set ahead of the swap or left nothing.
theorem drained_iff_swap_ahead (labels : List (Label F Tid))
    (ran : (machine : Machine (Quitting F Tid) (Label F Tid)).run new labels = some s) :
    ((machine : Machine (Quitting F Tid) (Label F Tid)).Meets SwapAhead new labels →
      (machine : Machine (Quitting F Tid) (Label F Tid)).Throughout Drained new labels) ∧
    (s.loop.phase = .idle → ((machine : Machine (Quitting F Tid) (Label F Tid)).Throughout Drained new labels ↔
      (machine : Machine (Quitting F Tid) (Label F Tid)).Meets SwapAhead new labels)) := by
  have sound : ∀ s : Quitting F Tid, Known s → Drained s := fun _ old => old.drained
  have kept : ∀ (s : Quitting F Tid) label after, Known s → s.SwapAhead label → machine.next s label = some after →
      Known after := by
    intro s label after old met taken
    obtain ⟨able,rfl⟩ := Machine.guarded_parts.mp taken
    exact old.step label able met
  refine ⟨Machine.throughout_of_meets sound kept known_new,fun idle => ?_⟩
  have fated : ∀ (s : Quitting F Tid) label after, Stranded s → machine.next s label = some after →
      Stranded after ∨ ¬Drained after := by
    intro s label after old taken
    obtain ⟨able,rfl⟩ := Machine.guarded_parts.mp taken
    exact stranded_fate old label able
  refine Machine.throughout_iff_meets_of_ends sound kept ?_ fated known_new ran fun fate => fate.2.2.1 idle
  intro s label after old late taken
  obtain ⟨able,rfl⟩ := Machine.guarded_parts.mp taken
  exact .inl (old.strands label able late)

-- quit() while the loop is in poll: the functor runs before loop() returns.
def quitInPoll : List (Label Nat Bool) :=
  [.loop,.check,.push true 7,.wakeup true,.quit true,.wakeup true,.pollReturns true,.handleRead,.handled,
    .processPendingResumes,.swap,.runFunctor,.functorReturns,.functorsDone,.destroyFunctor,.functorDestroyed,.cleared,.check]

theorem quit_in_poll_drains : ∃ s : Quitting Nat Bool, machine.run new quitInPoll = some s ∧
    s.loop.phase = .idle ∧ s.due = [0] ∧ s.loop.ran.map (·.1.functor) = [7] ∧
    (machine : Machine (Quitting Nat Bool) (Label Nat Bool)).Throughout Drained new quitInPoll := by
  refine ⟨_,rfl,rfl,rfl,rfl,(drained_iff_swap_ahead quitInPoll rfl).1 ?_⟩
  refine .cons trivial rfl ?_
  refine .cons trivial rfl ?_
  refine .cons trivial rfl ?_
  refine .cons trivial rfl ?_
  refine ⟨fun _ _ past => (by cases past),fun _ _ => Machine.meets_labels ?_⟩
  simp [SwapAhead]

-- Another thread queues and quits while doPendingFunctors runs its batch.
theorem functor_left_behind_quit : ∃ s : Quitting Nat Bool, machine.run new
      [.loop,.check,.pollReturns false,.handled,.processPendingResumes,.swap,.push true 7,.wakeup true,.quit true,
        .wakeup true,.functorsDone,.cleared,.check] = some s ∧
    s.loop.phase = .idle ∧ s.due = [0] ∧ s.loop.pendingFunctors.map (·.ticket) = [0] ∧ s.loop.ran.length = 0 ∧ ¬Drained s := by
  refine ⟨_,rfl,rfl,rfl,rfl,rfl,fun drained => ?_⟩
  cases drained rfl 0 (by decide)

end Quitting
end NewMuduo.EventLoop
