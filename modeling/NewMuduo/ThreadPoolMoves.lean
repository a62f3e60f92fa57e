import NewMuduo.ThreadPool
import NewMuduo.Monitor

namespace NewMuduo.ThreadPool
variable {T Tid : Type} {s after : ThreadPool T Tid} {w woken : Nat} {a : Agent Tid} {now : Int}

-- What a step comes from: a new call of run(), a wake-up nobody asked for, or
-- the calls and threads there are.
inductive Cause where
  | asked
  | spurious
  | own
  deriving DecidableEq, Repr

def Label.cause : Label T Tid → Cause
  | .run _ _ => .asked
  | .spurious _ | .spuriousCall _ => .spurious
  | _ => .own

-- The ways of a worker that change nothing but its stage, mutex_ and
-- activeThreads_.
inductive WorkerMove (s : ThreadPool T Tid) (w : Nat) : Cause → Worker → Option (Agent Tid) → Nat → Prop where
  | begin : s.worker w = .starting → WorkerMove s w .own .testing s.mutex (s.activeThreads + 1)
  | stopped : s.worker w = .testing → s.running = false → WorkerMove s w .own .returned s.mutex s.activeThreads
  | cached : s.worker w = .testing → s.running = true → (s.cache w).index < (s.cache w).tasks.length →
      WorkerMove s w .own .consuming s.mutex s.activeThreads
  | fetch : s.worker w = .testing → s.running = true → (s.cache w).tasks.length ≤ (s.cache w).index →
      WorkerMove s w .own .locking s.mutex s.activeThreads
  | lock : s.worker w = .locking ∨ s.worker w = .waking → s.mutex = none →
      WorkerMove s w .own .predicate (some (.worker w)) s.activeThreads
  | relock : s.worker w = .timedOut → s.mutex = none → WorkerMove s w .own .filling (some (.worker w)) s.activeThreads
  | ready : s.worker w = .predicate → s.running = false ∨ s.queue ≠ [] → WorkerMove s w .own .filling s.mutex s.activeThreads
  | block : s.worker w = .predicate → s.running = true → s.queue = [] → WorkerMove s w .own .blocking s.mutex s.activeThreads
  | wait : s.worker w = .blocking → WorkerMove s w .own .waiting none s.activeThreads
  | leave : s.worker w = .filling → s.queue = [] →
      s.model = .CACHE ∧ minThreads < s.activeThreads ∨ s.running = false → WorkerMove s w .own .returned none s.activeThreads
  | retry : s.worker w = .filling → s.queue = [] → s.model = .CACHE → s.activeThreads ≤ minThreads → s.running = true →
      WorkerMove s w .own .testing none s.activeThreads
  | drained : s.worker w = .consuming → (s.cache w).tasks.length ≤ (s.cache w).index →
      WorkerMove s w .own .testing s.mutex s.activeThreads
  | finish : s.worker w = .running → (s.call (.worker w)).isIdle = true → WorkerMove s w .own .consuming s.mutex s.activeThreads
  | timeout : s.worker w = .waiting → s.model = .CACHE → WorkerMove s w .own .timedOut s.mutex s.activeThreads
  | spurious : s.worker w = .waiting → WorkerMove s w .spurious .waking s.mutex s.activeThreads

inductive CallMove (s : ThreadPool T Tid) (a : Agent Tid) : Cause → RunCall T → Option (Agent Tid) → Prop where
  | run : s.inUserCode a = true → (s.call a).isIdle = true → CallMove s a .asked (.locking task) s.mutex
  | lock : s.call a = .locking task ∨ s.call a = .waking task → s.mutex = none → CallMove s a .own (.predicate task) (some a)
  | ready : s.call a = .predicate task → s.running = false ∨ s.queue.length < kMaxQueueSize →
      CallMove s a .own (.pushing task) s.mutex
  | block : s.call a = .predicate task → s.running = true → kMaxQueueSize ≤ s.queue.length →
      CallMove s a .own (.blocking task) s.mutex
  | wait : s.call a = .blocking task → CallMove s a .own (.waiting task) none
  | refuse : s.call a = .pushing task → s.running = false → CallMove s a .own .idle none
  | spurious : s.call a = .waiting task → CallMove s a .spurious (.waking task) s.mutex

-- Some of those that waited are on their way back, all if there was a notify_all.
def Woken (before after : Nat → Worker) : Prop := ∀ w, after w = before w ∨ before w = .waiting ∧ after w = (before w).wake

def CallsWoken (before after : Agent Tid → RunCall T) : Prop := after = before ∨ after = fun a => (before a).wake

variable [DecidableEq Tid]

-- Everything a step can do while the pool does not grow.
inductive Turns (s : ThreadPool T Tid) : Cause → ThreadPool T Tid → Prop where
  | none : Turns s .asked s
  | worker (w : Nat) : WorkerMove s w cause stage owner active →
      Turns s cause {s.moves w stage with mutex := owner,activeThreads := active}
  | call (a : Agent Tid) : CallMove s a cause reply owner → Turns s cause {s.answers a reply with mutex := owner}
  | take (w : Nat) (task : T) : s.worker w = .consuming → (s.cache w).tasks[(s.cache w).index]? = some task → Turns s .own
      {s.moves w .running with
        cache := Function.update s.cache w ⟨(s.cache w).tasks,(s.cache w).index + 1⟩
        started := s.started ++ [(w,task)]}
  | batch (w n : Nat) (others : Nat → Worker) (calls : Agent Tid → RunCall T) : s.worker w = .filling →
      s.queue ≠ [] ∨ s.model = .FIXED ∧ s.running = true → n = min s.adaptedBatchSize s.queue.length → Woken s.worker others →
      calls = (if s.queue.length - n < kMaxQueueSize * 3 / 4 then fun a => (s.call a).wake else s.call) → Turns s .own
      {s with
        batchSize := s.adaptedBatchSize
        cache := Function.update s.cache w ⟨s.queue.take n,0⟩
        queue := s.queue.drop n
        taken := s.taken ++ [⟨w,s.adaptedBatchSize,s.queue.take n⟩]
        worker := Function.update others w (if n = 0 then .returned else .consuming)
        call := calls
        mutex := .none}
  | push (a : Agent Tid) (task : T) (others : Nat → Worker) : s.call a = .pushing task → s.running = true →
      Woken s.worker others → Turns s .own
      {s.answers a .idle with
        queue := s.queue ++ [task]
        accepted := s.accepted ++ [task]
        worker := others
        runCounter := s.runCounter + 1
        adjusting := busy
        mutex := .none}
  | stop : s.stop = .idle → s.running = true → Turns s .own {s with running := false,stop := .notifying}
  | notify_all : s.stop = .notifying → Turns s .own {s with worker := fun w => (s.worker w).wake,stop := .joining}
  | join : s.stop = .joining → (∀ w < s.threads.length, s.worker w = .returned) → Turns s .own {s with stop := .joined}

variable {b : Agent Tid} {stage : Worker} {reply : RunCall T} {owner : Option (Agent Tid)} {active : Nat}

omit [DecidableEq Tid] in
theorem notify_one_parts (notified : s.notify_one woken = some after) :
    ∃ others, Woken s.worker others ∧ after = {s with worker := others} := by
  unfold notify_one at notified
  split at notified
  · rename_i waits
    cases notified
    refine ⟨Function.update s.worker woken .waking,fun w => ?_,rfl⟩
    by_cases same : w = woken
    · rw [same,Function.update_self,waits]
      exact .inr ⟨rfl,rfl⟩
    · exact .inl (Function.update_of_ne same _ _)
  · split at notified
    · cases notified
      exact ⟨s.worker,fun _ => .inl rfl,rfl⟩
    · cases notified

omit [DecidableEq Tid] in
theorem notifyNotFull_parts (s : ThreadPool T Tid) : s.notifyNotFull = {s with
    call := if s.queue.length < kMaxQueueSize * 3 / 4 then fun a => (s.call a).wake else s.call} := by
  unfold notifyNotFull
  split <;> rfl

omit [DecidableEq Tid] in
theorem calls_woken {before after : Agent Tid → RunCall T} {low : Prop} [Decidable low]
    (same : after = if low then fun a => (before a).wake else before) : CallsWoken before after := by
  split at same
  · exact .inr same
  · exact .inl same

-- queueLength_ is never raised, so maybeAdjust finds nothing to do.
omit [DecidableEq Tid] in
theorem sampled_parts (s : ThreadPool T Tid) (now : Int) (calm : s.queueLength = 0) :
    ∃ adjusting, s.sampled now = {s with runCounter := s.runCounter + 1,adjusting := adjusting} := by
  have low : ¬queueHighWatermark < s.queueLength := by
    rw [calm]
    exact Nat.not_lt_zero _
  unfold sampled maybeAdjust
  dsimp only
  split
  · split
    · exact ⟨s.adjusting,rfl⟩
    · split
      · exact ⟨s.adjusting,rfl⟩
      · rw [if_neg fun all => low all.1]
        exact ⟨false,rfl⟩
  · exact ⟨s.adjusting,rfl⟩

theorem takeBatch_turns (here : s.worker w = .filling) (some : s.queue ≠ [] ∨ s.model = .FIXED ∧ s.running = true)
    (taken : s.takeBatch w woken = Option.some after) : Turns s .own after := by
  unfold takeBatch at taken
  obtain ⟨notified,how,rfl⟩ := Option.map_eq_some_iff.mp taken
  have parts : ∃ others, Woken s.worker others ∧ notified = {s with
      batchSize := s.adaptedBatchSize
      cache := Function.update s.cache w ⟨s.queue.take (min s.adaptedBatchSize s.queue.length),0⟩
      queue := s.queue.drop (min s.adaptedBatchSize s.queue.length)
      taken := s.taken ++ [⟨w,s.adaptedBatchSize,s.queue.take (min s.adaptedBatchSize s.queue.length)⟩]
      worker := others} := by
    split at how
    · cases how
      exact ⟨s.worker,fun _ => .inl rfl,rfl⟩
    · exact notify_one_parts how
  obtain ⟨others,woke,rfl⟩ := parts
  rw [notifyNotFull_parts]
  simp only [List.length_drop]
  exact .batch w _ others _ here some rfl woke rfl

theorem fillLocalCache_turns (here : s.worker w = .filling) (filled : s.fillLocalCache w woken = Option.some after) :
    Turns s .own after := by
  unfold fillLocalCache at filled
  split at filled
  · rename_i model
    split at filled
    · rename_i empty
      have none : s.queue = [] := List.isEmpty_iff.mp empty
      split at filled
      · rename_i many
        cases filled
        exact .worker w (.leave here none (.inl ⟨model,many⟩))
      · rename_i few
        split at filled
        · rename_i stopped
          cases filled
          exact .worker w (.leave here none (.inr stopped))
        · rename_i running
          cases filled
          exact .worker w (.retry here none model (Nat.le_of_not_lt few) (Bool.of_not_eq_false running))
    · rename_i some
      exact takeBatch_turns here (.inl fun none => some (List.isEmpty_iff.mpr none)) filled
  · rename_i model
    split at filled
    · rename_i ended
      obtain ⟨empty,stopped⟩ := Bool.and_eq_true_iff.mp ended
      cases filled
      exact .worker w (.leave here (List.isEmpty_iff.mp empty) (.inr (Bool.not_eq_true' _ ▸ stopped)))
    · rename_i going
      refine takeBatch_turns here ?_ filled
      by_cases none : s.queue = []
      · refine .inr ⟨model,?_⟩
        simpa [none] using going
      · exact .inl none

theorem stepWorker_turns (taken : s.stepWorker w woken = some after) : Turns s .own after := by
  unfold stepWorker at taken
  split at taken
  · rename_i here
    cases taken
    exact .worker w (.begin here)
  · rename_i here
    split at taken
    · rename_i stopped
      cases taken
      exact .worker w (.stopped here stopped)
    · rename_i running
      have runs := Bool.of_not_eq_false running
      split at taken
      · rename_i more
        cases taken
        exact .worker w (.cached here runs more)
      · rename_i none
        cases taken
        exact .worker w (.fetch here runs (Nat.le_of_not_lt none))
  · rename_i here
    split at taken <;> cases taken
    rename_i free
    exact .worker w (.lock (.inl here) (Option.isNone_iff_eq_none.mp free))
  · rename_i here
    split at taken <;> cases taken
    rename_i free
    exact .worker w (.lock (.inr here) (Option.isNone_iff_eq_none.mp free))
  · rename_i here
    split at taken <;> cases taken
    rename_i free
    exact .worker w (.relock here (Option.isNone_iff_eq_none.mp free))
  · rename_i here
    cases taken
    split
    · rename_i ready
      refine .worker w (.ready here (ready.imp_right fun some none => ?_))
      rw [none] at some
      cases some
    · rename_i blocked
      obtain ⟨running,empty⟩ := not_or.mp blocked
      exact .worker w (.block here (Bool.of_not_eq_false running) (List.isEmpty_iff.mp (Bool.of_not_eq_false empty)))
  · rename_i here
    cases taken
    exact .worker w (.wait here)
  · rename_i here
    exact fillLocalCache_turns here taken
  · rename_i here
    split at taken <;> cases taken
    · rename_i task found
      exact .take w task here found
    · rename_i none
      exact .worker w (.drained here (List.getElem?_eq_none_iff.mp none))
  all_goals cases taken

-- What a run() leaves that pushes its task.
theorem push_parts (calm : s.queueLength = 0) (pushed : s.push a task now woken = some after) :
    ∃ others busy, Woken s.worker others ∧ after = {s.answers a .idle with
      queue := s.queue ++ [task]
      accepted := s.accepted ++ [task]
      worker := others
      runCounter := s.runCounter + 1
      adjusting := busy
      mutex := none} := by
  unfold push at pushed
  obtain ⟨notified,how,rfl⟩ := Option.map_eq_some_iff.mp pushed
  obtain ⟨others,woke,rfl⟩ := notify_one_parts how
  obtain ⟨busy,equal⟩ := sampled_parts {s with
    queue := s.queue ++ [task]
    accepted := s.accepted ++ [task]
    worker := others} now calm
  rw [equal]
  exact ⟨others,busy,woke,rfl⟩

theorem push_turns (calm : s.queueLength = 0) (here : s.call a = .pushing task) (running : s.running = true)
    (pushed : s.push a task now woken = some after) : Turns s .own after := by
  obtain ⟨others,_,woke,rfl⟩ := push_parts calm pushed
  exact .push a task others here running woke

theorem stepCall_turns (calm : s.queueLength = 0) (taken : s.stepCall a now woken = some after) : Turns s .own after := by
  unfold stepCall at taken
  split at taken
  · rename_i here
    split at taken <;> cases taken
    rename_i free
    exact .call a (.lock (.inl here) (Option.isNone_iff_eq_none.mp free))
  · rename_i here
    split at taken <;> cases taken
    rename_i free
    exact .call a (.lock (.inr here) (Option.isNone_iff_eq_none.mp free))
  · rename_i here
    cases taken
    split
    · rename_i ready
      exact .call a (.ready here ready)
    · rename_i blocked
      obtain ⟨running,full⟩ := not_or.mp blocked
      exact .call a (.block here (Bool.of_not_eq_false running) (Nat.le_of_not_lt full))
  · rename_i here
    cases taken
    exact .call a (.wait here)
  · rename_i here
    split at taken
    · rename_i stopped
      cases taken
      exact .call a (.refuse here stopped)
    · rename_i running
      exact push_turns calm here (Bool.of_not_eq_false running) taken
  all_goals cases taken

theorem step_turns {label : Label T Tid} (calm : s.queueLength = 0) (taken : s.step label = some after) :
    Turns s label.cause after := by
  cases label with
  | worker w woken => exact stepWorker_turns taken
  | finish w =>
    simp only [step] at taken
    split at taken <;> cases taken
    rename_i able
    exact .worker w (.finish able.1 able.2)
  | timeout w =>
    simp only [step] at taken
    split at taken <;> cases taken
    rename_i able
    exact .worker w (.timeout able.1 able.2)
  | spurious w =>
    simp only [step] at taken
    split at taken <;> cases taken
    rename_i able
    exact .worker w (.spurious able)
  | run a task =>
    simp only [step] at taken
    split at taken <;> cases taken
    rename_i able
    unfold run
    split
    · exact .none
    · exact .call a (.run able.1 able.2)
  | call a now woken => exact stepCall_turns calm taken
  | spuriousCall a =>
    simp only [step] at taken
    split at taken <;> cases taken
    rename_i here
    exact .call a (.spurious here)
  | stop =>
    simp only [step] at taken
    split at taken <;> cases taken
    rename_i able
    exact .stop able.1 able.2
  | notify_all =>
    simp only [step] at taken
    split at taken <;> cases taken
    rename_i able
    exact .notify_all able
  | join =>
    simp only [step] at taken
    split at taken <;> cases taken
    rename_i able
    refine .join able.1 fun w below => ?_
    exact of_decide_eq_true (List.all_eq_true.mp able.2 w (List.mem_range.mpr below))

def Worker.holds : Worker → Bool
  | .predicate | .blocking | .filling => true
  | _ => false

def RunCall.holds : RunCall T → Bool
  | .predicate _ | .blocking _ | .pushing _ => true
  | _ => false

omit [DecidableEq Tid] in
theorem Woken.keeps {before after : Nat → Worker} {Value : Type u} (woken : Woken before after) (value : Worker → Value)
    (same : value .waking = value .waiting) (w : Nat) : value (after w) = value (before w) := by
  rcases woken w with equal | ⟨waits,equal⟩
  · rw [equal]
  · rw [equal,waits]
    exact same

omit [DecidableEq Tid] in
theorem Woken.was {before after : Nat → Worker} (woken : Woken before after) (asleep : stage ≠ .waking)
    (there : after w = stage) : before w = stage := by
  rcases woken w with equal | ⟨waits,equal⟩
  · exact equal.symm.trans there
  · rw [waits] at equal
    exact absurd (there.symm.trans equal) asleep

theorem Woken.all (before : Nat → Worker) : Woken before fun w => (before w).wake := by
  intro w
  change (before w).wake = before w ∨ before w = .waiting ∧ (before w).wake = (before w).wake
  cases before w with
  | waiting => exact .inr ⟨rfl,rfl⟩
  | _ => exact .inl rfl

omit [DecidableEq Tid] in
theorem CallsWoken.keeps {before after : Agent Tid → RunCall T} {Value : Type u} (woken : CallsWoken before after)
    (value : RunCall T → Value) (same : ∀ task, value (.waking task) = value (.waiting task)) (a : Agent Tid) :
    value (after a) = value (before a) := by
  rcases woken with rfl | rfl
  · rfl
  · dsimp only
    cases before a with
    | waiting task => exact same task
    | _ => rfl

omit [DecidableEq Tid] in
theorem WorkerMove.lives (move : WorkerMove s w cause stage owner active) :
    s.worker w ≠ .unstarted ∧ s.worker w ≠ .returned ∧ (s.worker w = .running → (s.call (.worker w)).isIdle = true) := by
  cases move with
  | lock here _ => rcases here with here | here <;> simp [here]
  | finish here idle => simp [here,idle]
  | _ => simp [*]

omit [DecidableEq Tid] in
theorem RunCall.idle_free {call : RunCall T} (idle : call.isIdle = true) : call.holds = false := by
  cases call with
  | idle => rfl
  | _ => cases idle

-- Where a batch leaves its worker.
theorem batch_ends (n : Nat) : (if n = 0 then Worker.returned else .consuming) = .returned ∨
    (if n = 0 then Worker.returned else .consuming) = .consuming := by
  split
  · exact .inl rfl
  · exact .inr rfl

omit [DecidableEq Tid] in
theorem worker_injective : Function.Injective (Agent.worker : Nat → Agent Tid) := fun _ _ equal => Agent.worker.inj equal

-- Who holds mutex_, and which threads there are.
structure Locked (s : ThreadPool T Tid) : Prop where
  workers : ∀ w, (s.worker w).holds = true → s.mutex = some (.worker w)
  calls : ∀ a, (s.call a).holds = true → s.mutex = some a
  nested : ∀ w, (s.call (.worker w)).isIdle = true ∨ s.worker w = .running
  known : ∀ w, s.worker w ≠ .unstarted → w < s.threads.length
  crew : s.threads.length = s.numThreads
  calm : s.queueLength = 0

namespace Locked

omit [DecidableEq Tid] in
theorem started (model : Model) (numThreads : Nat) : Locked (start model numThreads : ThreadPool T Tid) := by
  refine ⟨?_,fun _ absent => (by cases absent),fun _ => .inl rfl,?_,List.length_replicate,rfl⟩
  · intro w holds
    unfold start at holds
    dsimp only at holds
    split at holds <;> cases holds
  · intro w here
    unfold start at here ⊢
    dsimp only at here
    rw [List.length_replicate]
    by_contra outside
    rw [if_neg outside] at here
    exact here rfl

omit [DecidableEq Tid] in
-- A worker outside run() goes on.
theorem moves (old : Locked s) (idle : (s.call (.worker w)).isIdle = true) (there : s.worker w ≠ .unstarted)
    (mine : stage.holds = true → owner = some (.worker w))
    (others : ∀ b, b ≠ .worker w → s.mutex = some b → owner = some b) : Locked {s.moves w stage with mutex := owner} := by
  have apart : ∀ a, (s.call a).holds = true → a ≠ .worker w := by
    rintro a holds rfl
    rw [RunCall.idle_free idle] at holds
    cases holds
  refine ⟨Holding.update old.workers worker_injective mine others,Holding.elsewhere old.calls apart others,?_,?_,old.crew,old.calm⟩
  · intro v
    by_cases same : v = w
    · rw [same]
      exact .inl idle
    · exact (old.nested v).imp_right fun running => (Function.update_of_ne same _ _).trans running
  · intro v here
    by_cases same : v = w
    · rw [same]
      exact old.known w there
    · exact old.known v fun unstarted => here ((Function.update_of_ne same _ _).trans unstarted)

-- A thread in the user's code goes on in run().
theorem answers (old : Locked s) (user : s.inUserCode a = true) (mine : reply.holds = true → owner = some a)
    (others : ∀ b, b ≠ a → s.mutex = some b → owner = some b) : Locked {s.answers a reply with mutex := owner} := by
  have apart : ∀ w, (s.worker w).holds = true → .worker w ≠ a := by
    rintro w holds rfl
    have running : s.worker w = .running := of_decide_eq_true user
    rw [running] at holds
    cases holds
  refine ⟨Holding.elsewhere old.workers apart others,Holding.update old.calls Function.injective_id mine others,?_,
    old.known,old.crew,old.calm⟩
  · intro w
    by_cases same : .worker w = a
    · rw [← same] at user
      exact .inr (of_decide_eq_true user)
    · refine (old.nested w).imp_left fun idle => ?_
      dsimp only [ThreadPool.answers]
      rw [Function.update_of_ne same]
      exact idle

omit [DecidableEq Tid] in
theorem wakes (old : Locked s) {others : Nat → Worker} {calls : Agent Tid → RunCall T} (woken : Woken s.worker others)
    (called : CallsWoken s.call calls) : Locked {s with worker := others,call := calls} := by
  have kept : ∀ {stage} w, stage ≠ .waiting → s.worker w = stage → others w = stage := by
    intro stage w awake here
    rcases woken w with equal | ⟨waits,_⟩
    · exact equal.trans here
    · exact absurd (here.symm.trans waits) awake
  refine ⟨Holding.same old.workers (woken.keeps Worker.holds rfl),Holding.same old.calls (called.keeps RunCall.holds fun _ => rfl),
    fun w => ?_,fun w here => ?_,old.crew,old.calm⟩
  · dsimp only
    rw [called.keeps RunCall.isIdle fun _ => rfl]
    exact (old.nested w).imp_right (kept w (by simp))
  · exact old.known w fun unstarted => here (kept w (by simp) unstarted)

omit [DecidableEq Tid] in
theorem worker (old : Locked s) (move : WorkerMove s w cause stage owner active) :
    Locked {s.moves w stage with mutex := owner,activeThreads := active} := by
  have idle := (old.nested w).elim id move.lives.2.2
  have mine : stage.holds = true → owner = some (.worker w) := by
    intro holds
    cases move with
    | lock _ _ | relock _ _ => rfl
    | ready here | block here => exact old.workers w (by rw [here]; rfl)
    | _ => cases holds
  have others : ∀ b, b ≠ .worker w → s.mutex = some b → owner = some b := by
    intro b apart held
    cases move with
    | lock _ free | relock _ free => cases held.symm.trans free
    | wait here | leave here | retry here => exact Holding.released (old.workers w (by rw [here]; rfl)) b apart held
    | _ => exact held
  have next := old.moves idle move.lives.1 mine others
  exact ⟨next.workers,next.calls,next.nested,next.known,next.crew,next.calm⟩

omit [DecidableEq Tid] in
-- Who is in run() is in the user's code.
theorem user (old : Locked s) (busy : (s.call a).isIdle = false) : s.inUserCode a = true := by
  cases a with
  | other t => rfl
  | worker w =>
    refine decide_eq_true ((old.nested w).resolve_left fun idle => ?_)
    rw [busy] at idle
    cases idle

theorem call (old : Locked s) (move : CallMove s a cause reply owner) : Locked {s.answers a reply with mutex := owner} := by
  refine old.answers ?_ ?_ ?_
  · cases move with
    | run user _ => exact user
    | lock here _ => rcases here with here | here <;> exact old.user (by rw [here]; rfl)
    | ready here | block here | wait here | refuse here | spurious here => exact old.user (by rw [here]; rfl)
  · intro holds
    cases move with
    | lock _ _ => rfl
    | ready here | block here => exact old.calls a (by rw [here]; rfl)
    | _ => cases holds
  · intro b apart held
    cases move with
    | lock _ free => cases held.symm.trans free
    | wait here | refuse here => exact Holding.released (old.calls a (by rw [here]; rfl)) b apart held
    | _ => exact held

theorem step (old : Locked s) (turn : Turns s cause after) : Locked after := by
  cases turn with
  | none => exact old
  | worker w move => exact old.worker move
  | call a move => exact old.call move
  | take w task here found =>
    have idle := (old.nested w).resolve_right (by simp [here])
    have next := @moves _ _ s w .running s.mutex old idle (by simp [here]) (fun absent => (by cases absent)) fun _ _ held => held
    exact ⟨next.workers,next.calls,next.nested,next.known,next.crew,next.calm⟩
  | batch w n others calls here some least woken called =>
    have held := old.workers w (by rw [here]; rfl)
    have woke := old.wakes woken (calls_woken called)
    have idle := (woke.nested w).resolve_right fun running => by cases here.symm.trans (woken.was (by simp) running)
    have there : others w ≠ .unstarted := fun unstarted => by cases here.symm.trans (woken.was (by simp) unstarted)
    have next := @moves _ _ _ w (if n = 0 then .returned else .consuming) none woke idle there
      (fun holds => by split at holds <;> cases holds) (Holding.released held)
    exact ⟨next.workers,next.calls,next.nested,next.known,next.crew,next.calm⟩
  | push a task others here running woken =>
    have held := old.calls a (by rw [here]; rfl)
    have woke := old.wakes woken (.inl rfl)
    have next := @answers _ _ _ a _ .idle none woke (woke.user (by rw [here]; rfl)) (fun absent => (by cases absent))
      (Holding.released held)
    exact ⟨next.workers,next.calls,next.nested,next.known,next.crew,next.calm⟩
  | stop idle running => exact ⟨old.workers,old.calls,old.nested,old.known,old.crew,old.calm⟩
  | notify_all here =>
    have woke := old.wakes (.all s.worker) (.inl rfl)
    exact ⟨woke.workers,woke.calls,woke.nested,woke.known,woke.crew,woke.calm⟩
  | join here all => exact ⟨old.workers,old.calls,old.nested,old.known,old.crew,old.calm⟩

end Locked

theorem next_turns {label : Label T Tid} (locked : Locked s) (taken : machine.next s label = some after) :
    Turns s label.cause after := by
  unfold machine at taken
  dsimp only at taken
  split at taken
  · cases taken
  · exact step_turns locked.calm taken

end NewMuduo.ThreadPool
