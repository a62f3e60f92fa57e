import NewMuduo.TimerThreads

namespace NewMuduo
namespace TimerQueue
variable {s : TimerQueue} {t : Timer} {timer : Nat} {label : Label}

def created : Label → List Nat
  | .add _ t _ => [t.sequence]
  | _ => []

theorem idle_runs (idle : s.batch = none) : s.userRuns = true := by
  unfold userRuns
  rw [idle]
  rfl

-- The records that reset leaves as they are.
structure SameRecords (s after : TimerQueue) : Prop where
  used : after.used = s.used
  runs : after.runs = s.runs
  cancels : after.cancels = s.cancels

theorem SameRecords.trans {middle : TimerQueue} (first : SameRecords s middle) (second : SameRecords middle after) :
    SameRecords s after :=
  ⟨second.used.trans first.used,second.runs.trans first.runs,second.cancels.trans first.cancels⟩

theorem resetOne_records (s : TimerQueue) (cur : Entry) : SameRecords s (s.resetOne cur) := by
  cases here : s.heap cur.timer with
  | none =>
    unfold resetOne deref
    rw [here]
    exact ⟨rfl,rfl,rfl⟩
  | some t =>
    rw [resetOne_some here]
    split <;> exact ⟨rfl,rfl,rfl⟩

theorem resets_records (batch : List Entry) (s : TimerQueue) : SameRecords s (batch.foldl resetOne s) := by
  induction batch generalizing s with
  | nil => exact ⟨rfl,rfl,rfl⟩
  | cons cur rest ih => exact (resetOne_records s cur).trans (ih _)

theorem deactivates_records (pending : List Entry) (s : TimerQueue) : SameRecords s (pending.foldl deactivate s) := by
  induction pending generalizing s with
  | nil => exact ⟨rfl,rfl,rfl⟩
  | cons e rest ih =>
    refine SameRecords.trans ?_ (ih _)
    unfold deactivate deref
    split <;> exact ⟨rfl,rfl,rfl⟩

namespace Accounted

theorem reset_records (old : Accounted s) (able : s.allowed (.reset clock) = true) :
    SameRecords s (s.apply (.reset clock)) := by
  obtain ⟨timerfd,after⟩ := (old.settled able).sound.rearm clock
  have reset : s.apply (.reset clock) = _ := after
  obtain ⟨used,runs,cancels⟩ := resets_records s.expired {s with callingExpiredTimers := false,batch := none}
  rw [reset]
  exact ⟨used,runs,cancels⟩

-- What a step adds to the records.
theorem records (old : Accounted s) (able : s.allowed label = true) :
    (s.apply label).used = s.used ++ created label ∧ (label = .run ∨ (s.apply label).runs = s.runs) ∧
      ∀ timer q, (timer,q) ∈ (s.apply label).cancels → (timer,q) ∈ s.cancels ∨ label = .cancel timer q := by
  have same : ∀ {after : TimerQueue}, SameRecords s after → after.used = s.used ++ [] ∧
      (label = .run ∨ after.runs = s.runs) ∧ ∀ timer q, (timer,q) ∈ after.cancels →
        (timer,q) ∈ s.cancels ∨ label = .cancel timer q := by
    intro after records
    rw [records.used,records.runs,records.cancels]
    exact ⟨(List.append_nil _).symm,.inr rfl,fun _ _ before => .inl before⟩
  cases label with
  | add timer t clock =>
    obtain ⟨timerfd,after⟩ := add_some s timer t clock
    rw [after]
    exact ⟨rfl,.inr rfl,fun _ _ before => .inl before⟩
  | cancel timer q =>
    have same : SameRecords {s with cancels := s.cancels ++ [(timer,q)]} (s.apply (.cancel timer q)) := by
      change SameRecords _ (cancelInLoop {s with cancels := s.cancels ++ [(timer,q)]} timer q)
      rcases (old.recorded timer q).cancelInLoop timer q with ⟨_,_,_,_,after⟩ | ⟨_,after⟩ <;>
        · rw [after]
          exact ⟨rfl,rfl,rfl⟩
    refine ⟨same.used.trans (List.append_nil _).symm,.inr same.runs,?_⟩
    intro other r member
    rw [same.cancels] at member
    rcases List.mem_append.mp member with before | last
    · exact .inl before
    · cases List.mem_singleton.mp last
      exact .inr rfl
  | handleRead now =>
    obtain ⟨used,runs,_⟩ := deactivates_records (s.timers.below ⟨now,UINTPTR_MAX⟩)
      {s.readTimerfd with timers := s.timers.above ⟨now,UINTPTR_MAX⟩}
    exact ⟨used.trans (List.append_nil _).symm,.inr runs,fun _ _ absent => (by cases absent)⟩
  | run =>
    obtain ⟨done,cur,rest,running,t,_,_,ran⟩ := old.run_some able
    rw [ran]
    exact ⟨(List.append_nil _).symm,.inl rfl,fun _ _ before => .inl before⟩
  | returns => exact same ⟨rfl,rfl,rfl⟩
  | reset clock => exact same (old.reset_records able)
  | expire => exact same ⟨rfl,rfl,rfl⟩

-- A Timer there is after a step was there, with its sequence number, or is the
-- one added.
theorem heap_from (old : Accounted s) (able : s.allowed label = true) (found : (s.apply label).heap timer = some t) :
    (∃ u, s.heap timer = some u ∧ u.sequence = t.sequence) ∨ ∃ clock, label = .add timer t clock := by
  cases label with
  | add other made clock =>
    obtain ⟨timerfd,after⟩ := add_some s other made clock
    rw [after] at found
    rcases Ledger.update_some found with ⟨rfl,rfl⟩ | ⟨_,before⟩
    · exact .inr ⟨clock,rfl⟩
    · exact .inl ⟨t,before,rfl⟩
  | cancel other q =>
    obtain ⟨_,_,_,_,takes⟩ := (old.recorded other q).cancelInLoop_takes other q
    exact .inl ⟨t,takes timer t found,rfl⟩
  | handleRead now =>
    rw [handleRead_heap] at found
    exact .inl ⟨t,found,rfl⟩
  | run =>
    rw [run_heap] at found
    exact .inl ⟨t,found,rfl⟩
  | returns => exact .inl ⟨t,found,rfl⟩
  | reset clock =>
    refine .inl ?_
    by_cases inside : ∃ e ∈ s.expired, timer = e.timer
    · obtain ⟨e,member,rfl⟩ := inside
      obtain ⟨u,before,_⟩ := old.tracked.sound.live (.inr member)
      have left := (old.reset_heap able member before).symm.trans found
      split at left
      · cases left
        exact ⟨u,before,rfl⟩
      · cases left
    · rw [old.reset_untouched able fun e member same => inside ⟨e,member,same⟩] at found
      exact ⟨t,found,rfl⟩
  | expire => exact .inl ⟨t,found,rfl⟩

end Accounted
end TimerQueue

def AddTimer.call : AddTimer → Option (Nat × Nat)
  | .idle => none
  | .queueing timer q | .building timer q => some (timer,q)

namespace TimerThreads
variable {Tid : Type} {s after : TimerThreads Tid} {u v : Timer} {timer q a : Nat} {clock : Int}

theorem memory_cases (found : s.memory timer = some u) :
    s.made timer = some u ∨ s.made timer = none ∧ s.queue.heap timer = some u := by
  unfold memory at found
  cases here : s.made timer with
  | none =>
    rw [here] at found
    exact .inr ⟨rfl,found⟩
  | some v =>
    rw [here] at found
    exact .inl found

theorem memory_made (found : s.made timer = some u) : s.memory timer = some u := by
  unfold memory
  rw [found]
  rfl

theorem memory_heap (unmade : s.made timer = none) : s.memory timer = s.queue.heap timer := by
  unfold memory
  rw [unmade]
  rfl

-- The Timers there are, each with a sequence number of its own.
structure Placed (s : TimerThreads Tid) : Prop where
  queue : s.queue.Accounted
  apart : ∀ timer u, s.made timer = some u → s.queue.heap timer = none
  early : ∀ q ∈ s.queue.used, q < s.numCreated
  fresh : ∀ timer u, s.made timer = some u → u.sequence < s.numCreated ∧ u.sequence ∉ s.queue.used ∧ timer < UINTPTR_MAX
  alone : ∀ one two u v, s.made one = some u → s.made two = some v → u.sequence = v.sequence → one = two

namespace Placed

theorem memory_queue (old : Placed s) (found : s.queue.heap timer = some u) : s.memory timer = some u := by
  cases here : s.made timer with
  | none => exact (memory_heap here).trans found
  | some v => cases (old.apart timer v here).symm.trans found

theorem known (old : Placed s) (found : s.memory timer = some u) : u.sequence < s.numCreated := by
  rcases memory_cases found with found | ⟨_,found⟩
  · exact (old.fresh timer u found).1
  · exact old.early _ (old.queue.tracked.ledger.known timer u found)

theorem unique (old : Placed s) (one : s.memory timer = some u) (two : s.memory a = some v)
    (same : u.sequence = v.sequence) : timer = a := by
  have ledger := old.queue.tracked.ledger
  rcases memory_cases one with one | ⟨_,one⟩ <;> rcases memory_cases two with two | ⟨_,two⟩
  · exact old.alone _ _ _ _ one two same
  · exact absurd (same ▸ ledger.known a v two) (old.fresh timer u one).2.1
  · exact absurd (same ▸ ledger.known timer u one) (old.fresh a v two).2.1
  · exact ledger.alone _ _ _ _ one two same

-- The step of the queue that puts a made Timer in the sets.
theorem addable (old : Placed s) (idle : s.queue.userRuns = true) (found : s.made timer = some u) (clock : Int) :
    s.queue.allowed (.add timer u clock) = true := by
  obtain ⟨_,unused,small⟩ := old.fresh timer u found
  unfold TimerQueue.allowed
  simp [idle,old.apart timer u found,unused,small]

theorem newTimer (old : Placed s) (vacant : s.memory timer = none) (small : timer < UINTPTR_MAX)
    (given : u.sequence = s.numCreated) (threads : Tid → AddTimer) :
    Placed {s with made := Function.update s.made timer (some u),numCreated := s.numCreated + 1,threads := threads} := by
  have free : s.queue.heap timer = none := by
    unfold memory at vacant
    exact (Option.or_eq_none_iff.mp vacant).2
  refine ⟨old.queue,?_,fun q member => Nat.lt_succ_of_lt (old.early q member),?_,?_⟩
  · intro one v found
    rcases Ledger.update_some found with ⟨rfl,_⟩ | ⟨_,before⟩
    · exact free
    · exact old.apart one v before
  · intro one v found
    rcases Ledger.update_some found with ⟨rfl,rfl⟩ | ⟨_,before⟩
    · rw [given]
      exact ⟨Nat.lt_succ_self _,fun member => Nat.lt_irrefl _ (old.early _ member),small⟩
    · obtain ⟨below,unused,small⟩ := old.fresh one v before
      exact ⟨Nat.lt_succ_of_lt below,unused,small⟩
  · intro one two v w first second same
    rcases Ledger.update_some first with ⟨here,rfl⟩ | ⟨_,there⟩ <;>
      rcases Ledger.update_some second with ⟨here_two,rfl⟩ | ⟨_,there_two⟩
    · rw [here,here_two]
    · exact absurd (old.fresh two w there_two).1 (by omega)
    · exact absurd (old.fresh one v there).1 (by omega)
    · exact old.alone one two v w there there_two same

theorem addTimerInLoop (old : Placed s) (idle : s.queue.userRuns = true) (found : s.made timer = some u)
    (pending : List Nat) : Placed {s with
      made := Function.update s.made timer none
      pendingFunctors := pending
      queue := s.queue.apply (.add timer u clock)} := by
  have able := old.addable idle found clock
  obtain ⟨used,_⟩ := old.queue.records able
  refine ⟨old.queue.step _ able,?_,?_,?_,?_⟩
  · intro one v there
    obtain ⟨away,before⟩ := Ledger.update_none there
    obtain ⟨_,after⟩ := TimerQueue.add_some s.queue timer u clock
    dsimp only
    rw [after]
    exact (Function.update_of_ne away _ _).trans (old.apart one v before)
  · intro q member
    dsimp only at member
    rw [used] at member
    rcases List.mem_append.mp member with before | last
    · exact old.early q before
    · rw [List.mem_singleton.mp last]
      exact (old.fresh timer u found).1
  · intro one v there
    obtain ⟨away,before⟩ := Ledger.update_none there
    obtain ⟨below,unused,small⟩ := old.fresh one v before
    refine ⟨below,?_,small⟩
    dsimp only
    rw [used]
    intro member
    rcases List.mem_append.mp member with before | last
    · exact unused before
    · exact away (old.alone one timer v u before found (List.mem_singleton.mp last))
  · intro one two v w first second
    exact old.alone one two v w (Ledger.update_none first).2 (Ledger.update_none second).2

theorem moves {label : TimerQueue.Label} (old : Placed s) (able : s.queue.allowed label = true) (n : Nat)
    (unmade : ∀ timer u clock, label = .add timer u clock → s.made timer = none) (above : s.numCreated ≤ n)
    (next : ∀ q ∈ TimerQueue.created label, q = s.numCreated ∧ q < n) (returned : List (TimerId × Nat)) :
    Placed {s with queue := s.queue.apply label,numCreated := n,returned := returned} := by
  obtain ⟨used,_⟩ := old.queue.records able
  refine ⟨old.queue.step _ able,?_,?_,?_,old.alone⟩
  · intro one v found
    by_contra occupied
    obtain ⟨w,there⟩ := Option.ne_none_iff_exists'.mp occupied
    rcases old.queue.heap_from able there with ⟨x,before,_⟩ | ⟨clock,added⟩
    · cases before.symm.trans (old.apart one v found)
    · cases (unmade one w clock added).symm.trans found
  · intro q member
    dsimp only at member ⊢
    rw [used] at member
    rcases List.mem_append.mp member with before | given
    · exact Nat.lt_of_lt_of_le (old.early q before) above
    · exact (next q given).2
  · intro one v found
    obtain ⟨below,unused,small⟩ := old.fresh one v found
    refine ⟨Nat.lt_of_lt_of_le below above,?_,small⟩
    dsimp only
    rw [used]
    intro member
    rcases List.mem_append.mp member with before | given
    · exact unused before
    · exact absurd (next _ given).1 (Nat.ne_of_lt below)

theorem loop {label : TimerQueue.Label} (old : Placed s) (able : s.queue.allowed label = true)
    (admitted : s.loopAllowed label) : Placed (s.loop label) := by
  cases label with
  | add timer u clock =>
    obtain ⟨unmade,given⟩ := admitted
    refine old.moves able (s.numCreated + 1) ?_ (Nat.le_succ _) ?_ _
    · intro _ _ _ same
      cases same
      exact unmade
    · intro q member
      rw [List.mem_singleton.mp member,given]
      exact ⟨rfl,Nat.lt_succ_self _⟩
  | _ =>
    refine old.moves able s.numCreated ?_ (Nat.le_refl _) ?_ s.returned
    · intro _ _ _ same
      cases same
    · intro _ absent
      cases absent

end Placed

theorem loop_queue (s : TimerThreads Tid) (label : TimerQueue.Label) :
    (s.loop label).queue = s.queue.apply label ∧ (s.loop label).made = s.made ∧ (s.loop label).threads = s.threads ∧
      (s.loop label).pendingFunctors = s.pendingFunctors ∧ s.numCreated ≤ (s.loop label).numCreated := by
  cases label <;> exact ⟨rfl,rfl,rfl,rfl,by simp [loop]⟩

section memory
variable [DecidableEq Tid]

-- A Timer there is after a step was there, with its sequence number, or is new.
theorem memory_from {label : Label Tid} (old : Placed s) (taken : s.step label = some after)
    (found : after.memory a = some u) :
    (∃ v, s.memory a = some v ∧ v.sequence = u.sequence) ∨ u.sequence = s.numCreated := by
  cases label with
  | newTimer t timer made =>
    simp only [step] at taken
    split at taken
    · rename_i able
      cases taken
      rcases memory_cases found with there | ⟨_,there⟩
      · rcases Ledger.update_some there with ⟨rfl,rfl⟩ | ⟨_,before⟩
        · exact .inr able.2.2.2
        · exact .inl ⟨u,memory_made before,rfl⟩
      · exact .inl ⟨u,old.memory_queue there,rfl⟩
    · cases taken
  | queueInLoop t | timerId t garbage =>
    simp only [step] at taken
    split at taken
    · cases taken
      exact .inl ⟨u,found,rfl⟩
    · cases taken
  | addTimerInLoop clock =>
    simp only [step] at taken
    split at taken
    · rename_i timer rest idle here
      cases taken
      unfold addTimerInLoop at found
      split at found
      · rename_i made there
        dsimp only at there
        obtain ⟨timerfd,after⟩ := TimerQueue.add_some s.queue timer made clock
        refine .inl ?_
        rcases memory_cases found with now | ⟨_,now⟩
        · exact ⟨u,memory_made (Ledger.update_none now).2,rfl⟩
        · dsimp only at now
          rw [after] at now
          rcases Ledger.update_some now with ⟨rfl,rfl⟩ | ⟨_,before⟩
          · exact ⟨u,memory_made there,rfl⟩
          · exact ⟨u,old.memory_queue before,rfl⟩
      · exact .inl ⟨u,found,rfl⟩
    · cases taken
  | loop label =>
    simp only [step] at taken
    split at taken
    · rename_i able
      cases taken
      obtain ⟨queue,made,_⟩ := s.loop_queue label
      rcases memory_cases found with there | ⟨_,there⟩
      · rw [made] at there
        exact .inl ⟨u,memory_made there,rfl⟩
      · rw [queue] at there
        rcases old.queue.heap_from able.1 there with ⟨v,before,same⟩ | ⟨clock,rfl⟩
        · exact .inl ⟨v,old.memory_queue before,same⟩
        · exact .inr able.2.2
    · cases taken

end memory

-- id names the Timer that was created with q, if that one is there.
structure Names (s : TimerThreads Tid) (id : TimerId) (q : Nat) : Prop where
  given : q < s.numCreated
  there : ∀ timer u, s.memory timer = some u → u.sequence = q → id = ⟨timer,q⟩

-- The calls of addTimer and the ids they returned, each for its own Timer.
structure Sharing (s : TimerThreads Tid) : Prop where
  placed : Placed s
  once : s.pendingFunctors.Nodup
  pending : ∀ timer ∈ s.pendingFunctors, ∃ u, s.made timer = some u
  queueing : ∀ t timer q, s.threads t = .queueing timer q →
    timer ∉ s.pendingFunctors ∧ ∃ u, s.made timer = some u ∧ u.sequence = q
  queued : ∀ timer u, s.made timer = some u →
    timer ∈ s.pendingFunctors ∨ ∃ t, s.threads t = .queueing timer u.sequence
  calls : ∀ t one timer two q, (s.threads t).call = some (timer,q) → (s.threads one).call = some (two,q) → t = one
  names : ∀ t timer q, (s.threads t).call = some (timer,q) → s.Names ⟨timer,q⟩ q
  ids : ∀ id q, (id,q) ∈ s.returned → s.Names id q ∧ ∀ t timer, (s.threads t).call ≠ some (timer,q)
  cancels : ∀ timer q, (timer,q) ∈ s.queue.cancels → ⟨timer,q⟩ ∈ s.returned.map (·.1)

theorem Sharing.started : Sharing (new : TimerThreads Tid) := by
  have placed : Placed (new : TimerThreads Tid) := by
    refine ⟨TimerQueue.Accounted.started,?_,fun _ absent => (by cases absent),?_,?_⟩
    all_goals
      intros
      contradiction
  refine ⟨placed,.nil,fun _ absent => (by cases absent),?_,?_,?_,?_,fun _ _ absent => (by cases absent),fun _ _ absent => (by cases absent)⟩
  all_goals
    intros
    contradiction

section step
variable [DecidableEq Tid] {label : Label Tid} {t : Tid}

theorem created_grows (taken : s.step label = some after) : s.numCreated ≤ after.numCreated := by
  cases label with
  | newTimer t timer made =>
    simp only [step] at taken
    split at taken <;> cases taken
    exact Nat.le_succ _
  | queueInLoop t | timerId t garbage =>
    simp only [step] at taken
    split at taken <;> cases taken
    exact Nat.le_refl _
  | addTimerInLoop clock =>
    simp only [step] at taken
    split at taken <;> cases taken
    unfold addTimerInLoop
    split <;> exact Nat.le_refl _
  | loop label =>
    simp only [step] at taken
    split at taken <;> cases taken
    exact (s.loop_queue label).2.2.2.2

theorem Names.step {id : TimerId} (old : s.Names id q) (placed : Placed s) (taken : s.step label = some after) :
    after.Names id q := by
  refine ⟨Nat.lt_of_lt_of_le old.given (created_grows taken),?_⟩
  intro timer u found same
  rcases memory_from placed taken found with ⟨v,before,equal⟩ | new
  · exact old.there timer v before (equal.trans same)
  · exact absurd (same.symm.trans new) (Nat.ne_of_lt old.given)

omit [DecidableEq Tid] in
-- A Timer that was just given its number.
theorem Names.fresh (placed : Placed s) (found : s.memory timer = some u) : s.Names ⟨timer,u.sequence⟩ u.sequence := by
  refine ⟨placed.known found,?_⟩
  intro a v there same
  rw [placed.unique found there same.symm]

theorem update_parts {threads : Tid → AddTimer} (here : Function.update threads t next one = stage) :
    one = t ∧ next = stage ∨ one ≠ t ∧ threads one = stage := by
  rw [Function.update_apply] at here
  split at here <;> rename_i which
  · exact .inl ⟨which,here⟩
  · exact .inr ⟨which,here⟩

theorem call_parts {threads : Tid → AddTimer} {call : Nat × Nat}
    (called : (Function.update threads t next one).call = some call) :
    one = t ∧ next.call = some call ∨ one ≠ t ∧ (threads one).call = some call := by
  rcases update_parts (rfl : Function.update threads t next one = _) with ⟨which,same⟩ | ⟨which,same⟩
  · exact .inl ⟨which,same ▸ called⟩
  · exact .inr ⟨which,same ▸ called⟩

namespace Sharing

theorem newTimer (old : Sharing s) (taken : s.step (.newTimer t timer u) = some after) : Sharing after := by
  have named : ∀ {id q}, s.Names id q → after.Names id q := fun names => names.step old.placed taken
  simp only [step] at taken
  split at taken <;> cases taken
  rename_i able
  obtain ⟨idle,vacant,small,given⟩ := able
  have unmade : s.made timer = none := (Option.or_eq_none_iff.mp vacant).1
  have placed := old.placed.newTimer vacant small given (Function.update s.threads t (.queueing timer u.sequence))
  have numbered : ∀ one two q, (s.threads one).call = some (two,q) → q < u.sequence := by
    intro one two q called
    exact given ▸ (old.names one two q called).given
  have made : ∀ {a}, a ≠ timer → Function.update s.made timer (some u) a = s.made a := fun away => Function.update_of_ne away _ _
  have away : ∀ {a v}, s.made a = some v → a ≠ timer := by
    rintro a v found rfl
    cases unmade.symm.trans found
  refine ⟨placed,old.once,?_,?_,?_,?_,?_,?_,old.cancels⟩
  · intro a member
    obtain ⟨v,found⟩ := old.pending a member
    exact ⟨v,(made (away found)).trans found⟩
  · intro one a q here
    rcases update_parts here with ⟨_,same⟩ | ⟨_,here⟩
    · cases same
      refine ⟨fun member => ?_,u,Function.update_self _ _ _,rfl⟩
      obtain ⟨v,found⟩ := old.pending timer member
      exact away found rfl
    · obtain ⟨outside,v,found,same⟩ := old.queueing one a q here
      exact ⟨outside,v,(made (away found)).trans found,same⟩
  · intro a v found
    rcases Ledger.update_some found with ⟨rfl,rfl⟩ | ⟨_,before⟩
    · exact .inr ⟨t,Function.update_self _ _ _⟩
    · refine (old.queued a v before).imp_right fun given => ?_
      obtain ⟨one,here⟩ := given
      refine ⟨one,(Function.update_of_ne ?_ _ _).trans here⟩
      rintro rfl
      cases idle.symm.trans here
  · intro one two a b q first second
    rcases call_parts first with ⟨rfl,same⟩ | ⟨_,called⟩ <;> rcases call_parts second with ⟨rfl,same_two⟩ | ⟨_,called_two⟩
    · rfl
    · cases same
      exact absurd (numbered two b _ called_two) (Nat.lt_irrefl _)
    · cases same_two
      exact absurd (numbered one a _ called) (Nat.lt_irrefl _)
    · exact old.calls one two a b q called called_two
  · intro one a q called
    rcases call_parts called with ⟨_,same⟩ | ⟨_,called⟩
    · cases same
      exact Names.fresh placed (memory_made (Function.update_self _ _ _))
    · exact named (old.names one a q called)
  · intro id q member
    obtain ⟨names,apart⟩ := old.ids id q member
    refine ⟨named names,fun one a called => ?_⟩
    rcases call_parts called with ⟨_,same⟩ | ⟨_,called⟩
    · cases same
      exact absurd names.given (given ▸ Nat.lt_irrefl _)
    · exact apart one a called

theorem queueInLoop (old : Sharing s) (taken : s.step (.queueInLoop t) = some after) : Sharing after := by
  have named : ∀ {id q}, s.Names id q → after.Names id q := fun names => names.step old.placed taken
  simp only [step] at taken
  split at taken <;> cases taken
  rename_i timer q here
  obtain ⟨outside,u,found,same⟩ := old.queueing t timer q here
  have calls : ∀ one, (Function.update s.threads t (.building timer q) one).call = (s.threads one).call := by
    intro one
    rw [Function.update_apply]
    split
    · rename_i equal
      rw [equal,here]
      rfl
    · rfl
  refine ⟨⟨old.placed.queue,old.placed.apart,old.placed.early,old.placed.fresh,old.placed.alone⟩,?_,?_,?_,?_,?_,?_,?_,old.cancels⟩
  · exact List.nodup_append.mpr ⟨old.once,List.nodup_singleton _,fun a member b last equal => outside (by
      rw [← List.mem_singleton.mp last,← equal]
      exact member)⟩
  · intro a member
    rcases List.mem_append.mp member with before | last
    · exact old.pending a before
    · rw [List.mem_singleton.mp last]
      exact ⟨u,found⟩
  · intro one a r there
    rcases update_parts there with ⟨_,absent⟩ | ⟨away,queueing⟩
    · cases absent
    obtain ⟨outside_one,v,found_one,same_one⟩ := old.queueing one a r queueing
    refine ⟨fun member => ?_,v,found_one,same_one⟩
    rcases List.mem_append.mp member with before | last
    · exact outside_one before
    · cases List.mem_singleton.mp last
      cases found.symm.trans found_one
      cases same
      cases same_one
      exact away (old.calls one t _ _ u.sequence (by rw [queueing]; rfl) (by rw [here]; rfl))
  · intro a v there
    rcases old.queued a v there with before | ⟨one,queueing⟩
    · exact .inl (List.mem_append_left _ before)
    · by_cases equal : one = t
      · rw [equal] at queueing
        cases here.symm.trans queueing
        exact .inl (List.mem_append_right _ List.mem_cons_self)
      · exact .inr ⟨one,(Function.update_of_ne equal _ _).trans queueing⟩
  · intro one two a b r
    dsimp only
    rw [calls,calls]
    exact old.calls one two a b r
  · intro one a r
    dsimp only
    rw [calls]
    exact fun called => named (old.names one a r called)
  · intro id r member
    obtain ⟨names,apart⟩ := old.ids id r member
    refine ⟨named names,fun one a => ?_⟩
    dsimp only
    rw [calls]
    exact apart one a

theorem timerId (old : Sharing s) (taken : s.step (.timerId t garbage) = some after) : Sharing after := by
  have named : ∀ {id q}, s.Names id q → after.Names id q := fun names => names.step old.placed taken
  simp only [step] at taken
  split at taken <;> cases taken
  rename_i timer q here
  have mine : (s.threads t).call = some (timer,q) := by
    rw [here]
    rfl
  refine ⟨⟨old.placed.queue,old.placed.apart,old.placed.early,old.placed.fresh,old.placed.alone⟩,old.once,old.pending,?_,?_,?_,?_,?_,?_⟩
  · intro one a r there
    rcases update_parts there with ⟨_,absent⟩ | ⟨_,there⟩
    · cases absent
    · exact old.queueing one a r there
  · intro a v there
    refine (old.queued a v there).imp_right fun given => ?_
    obtain ⟨one,queueing⟩ := given
    refine ⟨one,(Function.update_of_ne ?_ _ _).trans queueing⟩
    rintro rfl
    cases here.symm.trans queueing
  · intro one two a b r first second
    rcases call_parts first with ⟨_,absent⟩ | ⟨_,called⟩
    · cases absent
    rcases call_parts second with ⟨_,absent⟩ | ⟨_,called_two⟩
    · cases absent
    exact old.calls one two a b r called called_two
  · intro one a r there
    rcases call_parts there with ⟨_,absent⟩ | ⟨_,called⟩
    · cases absent
    · exact named (old.names one a r called)
  · intro id r member
    rcases List.mem_append.mp member with before | last
    · obtain ⟨names,apart⟩ := old.ids id r before
      refine ⟨named names,fun one a called => ?_⟩
      rcases call_parts called with ⟨_,absent⟩ | ⟨_,called⟩
      · cases absent
      · exact apart one a called
    · cases List.mem_singleton.mp last
      have names := old.names t timer q mine
      refine ⟨named ⟨names.given,?_⟩,fun one a called => ?_⟩
      · intro a u found same
        cases names.there a u found same
        unfold sequence
        rw [found,← same]
        rfl
      · rcases call_parts called with ⟨_,absent⟩ | ⟨away,called⟩
        · cases absent
        · exact away (old.calls one t a timer q called mine)
  · intro a r member
    dsimp only
    rw [List.map_append]
    exact List.mem_append_left _ (old.cancels a r member)

omit [DecidableEq Tid] in
-- What the functor of addTimerInLoop finds.
theorem adds (old : Sharing s) (idle : s.queue.batch = none) (here : s.pendingFunctors = timer :: rest) (clock : Int) :
    ∃ u, s.made timer = some u ∧ s.queue.allowed (.add timer u clock) = true ∧
      ({s with pendingFunctors := rest} : TimerThreads Tid).addTimerInLoop timer clock = {s with
        made := Function.update s.made timer none
        pendingFunctors := rest
        queue := s.queue.apply (.add timer u clock)} := by
  obtain ⟨u,found⟩ := old.pending timer (by rw [here]; exact List.mem_cons_self)
  refine ⟨u,found,old.placed.addable (TimerQueue.idle_runs idle) found clock,?_⟩
  unfold TimerThreads.addTimerInLoop
  simp only [found]

theorem addTimerInLoop (old : Sharing s) (taken : s.step (.addTimerInLoop clock) = some after) : Sharing after := by
  have named : ∀ {id q}, s.Names id q → after.Names id q := fun names => names.step old.placed taken
  simp only [step] at taken
  split at taken <;> cases taken
  rename_i timer rest idle here
  obtain ⟨u,found,able,next⟩ := old.adds idle here clock
  rw [next] at named ⊢
  obtain ⟨fresh,once⟩ := List.nodup_cons.mp (here ▸ old.once)
  have later : ∀ {a}, a ∈ rest → a ∈ s.pendingFunctors := fun member => here ▸ List.mem_cons_of_mem _ member
  have kept : ∀ {a v}, a ≠ timer → s.made a = some v → Function.update s.made timer none a = some v :=
    fun away there => (Function.update_of_ne away _ _).trans there
  refine ⟨old.placed.addTimerInLoop (TimerQueue.idle_runs idle) found rest,once,?_,?_,?_,old.calls,?_,?_,?_⟩
  · intro a member
    obtain ⟨v,there⟩ := old.pending a (later member)
    exact ⟨v,kept (fun same => fresh (same ▸ member)) there⟩
  · intro one a r queueing
    obtain ⟨outside,v,there,same⟩ := old.queueing one a r queueing
    refine ⟨fun member => outside (later member),v,kept ?_ there,same⟩
    rintro rfl
    exact outside (here ▸ List.mem_cons_self)
  · intro a v there
    obtain ⟨away,before⟩ := Ledger.update_none there
    refine (old.queued a v before).imp_left fun member => ?_
    rw [here] at member
    exact (List.mem_cons.mp member).resolve_left away
  · exact fun one a r called => named (old.names one a r called)
  · intro id r member
    obtain ⟨names,apart⟩ := old.ids id r member
    exact ⟨named names,apart⟩
  · intro a r member
    rcases (old.placed.queue.records able).2.2 a r member with before | absent
    · exact old.cancels a r before
    · cases absent

theorem loop {label : TimerQueue.Label} (old : Sharing s) (taken : s.step (.loop label) = some after) : Sharing after := by
  have named : ∀ {id q}, s.Names id q → after.Names id q := fun names => names.step old.placed taken
  simp only [step] at taken
  split at taken <;> cases taken
  rename_i able
  obtain ⟨able,admitted⟩ := able
  obtain ⟨queue,made,threads,pending,_⟩ := s.loop_queue label
  have placed := old.placed.loop able admitted
  have cancels := (old.placed.queue.records able).2.2
  rw [← queue] at cancels
  refine ⟨placed,?_,?_,?_,?_,?_,?_,?_,?_⟩
  · exact pending ▸ old.once
  · exact pending ▸ made ▸ old.pending
  · exact threads ▸ pending ▸ made ▸ old.queueing
  · exact threads ▸ pending ▸ made ▸ old.queued
  · exact threads ▸ old.calls
  · rw [threads]
    exact fun one a r called => named (old.names one a r called)
  · rw [threads]
    have before : ∀ id r, (id,r) ∈ s.returned → (s.loop label).Names id r ∧ ∀ one a, (s.threads one).call ≠ some (a,r) := by
      intro id r member
      obtain ⟨names,apart⟩ := old.ids id r member
      exact ⟨named names,apart⟩
    cases label with
    | add timer u clock =>
      intro id r member
      rcases List.mem_append.mp member with earlier | last
      · exact before id r earlier
      · cases List.mem_singleton.mp last
        obtain ⟨timerfd,next⟩ := TimerQueue.add_some s.queue timer u clock
        have found : (s.loop (.add timer u clock)).queue.heap timer = some u := by
          rw [queue,next]
          exact Function.update_self _ _ _
        refine ⟨Names.fresh placed (placed.memory_queue found),fun one a called => ?_⟩
        exact absurd (old.names one a _ called).given (admitted.2 ▸ Nat.lt_irrefl _)
    | _ => exact before
  · intro a r member
    rcases cancels a r member with before | rfl
    · have known := old.cancels a r before
      cases label with
      | add timer u clock =>
        unfold TimerThreads.loop
        rw [List.map_append]
        exact List.mem_append_left _ known
      | _ => exact known
    · exact admitted

theorem step (old : Sharing s) (taken : s.step label = some after) : Sharing after := by
  cases label with
  | newTimer t timer u => exact old.newTimer taken
  | queueInLoop t => exact old.queueInLoop taken
  | timerId t garbage => exact old.timerId taken
  | addTimerInLoop clock => exact old.addTimerInLoop taken
  | loop label => exact old.loop taken

end Sharing

theorem sharing : (machine : Machine (TimerThreads Tid) (Label Tid)).Preserves (fun _ _ => True) Sharing := by
  refine ⟨?_,fun s label after old _ taken => old.step taken⟩
  rintro _ rfl
  exact Sharing.started

end step
end TimerThreads
end NewMuduo
