import NewMuduo.ThreadPoolStop

namespace NewMuduo.ThreadPool
variable {T Tid : Type} {s after : ThreadPool T Tid} {w : Nat} {a : Agent Tid}
  {stage : Worker} {reply : RunCall T} {owner : Option (Agent Tid)} {active : Nat}

-- The workers in fillLocalCache.
def fillers (s : ThreadPool T Tid) : Nat := ∑ w ∈ Finset.range s.threads.length, (s.worker w).fetches.toNat

-- The tasks that fillers more batches leave of those that wait.
def leftAfter : Nat → Nat → Nat → Nat
  | 0,_,waiting => waiting
  | fillers + 1,batchSize,waiting =>
    leftAfter fillers (adapted batchSize waiting) (waiting - min (adapted batchSize waiting) waiting)

def drained (s : ThreadPool T Tid) : Nat := leftAfter s.fillers s.batchSize s.queue.length

-- No thread is between its test and its wait on notEmpty_ without a timeout,
-- and who waits on notFull_ will see a batch leave room.
structure Settled (s : ThreadPool T Tid) : Prop where
  workers : s.model = .FIXED → ∀ w, s.worker w ≠ .blocking
  calls : ∀ a, (s.call a).sleeps = true → s.drained < kMaxQueueSize * 3 / 4

-- Everybody has returned, stop() too.
structure Done (s : ThreadPool T Tid) : Prop where
  joined : s.stop = .joined
  workers : ∀ w < s.threads.length, s.worker w = .returned
  calls : ∀ a, (s.call a).isIdle = true

theorem leftAfter_none (fillers batchSize : Nat) : leftAfter fillers batchSize 0 = 0 := by
  induction fillers generalizing batchSize with
  | zero => rfl
  | succ fillers ih =>
    unfold leftAfter
    rw [Nat.zero_sub]
    exact ih _

theorem leftAfter_le (fillers batchSize waiting : Nat) : leftAfter fillers batchSize waiting ≤ waiting := by
  induction fillers generalizing batchSize waiting with
  | zero => exact Nat.le_refl _
  | succ fillers ih => exact Nat.le_trans (ih _ _) (Nat.sub_le _ _)

-- On notEmpty_, or about to be.
def Worker.sleeps : Worker → Bool
  | .blocking | .waiting => true
  | _ => false

theorem sum_fetches {workers : Nat → Worker} {n : Nat} (stage : Worker) (below : w < n)
    (others : ∀ v, (workers v).fetches = (s.worker v).fetches) :
    ∑ v ∈ Finset.range n, (Function.update workers w stage v).fetches.toNat + (s.worker w).fetches.toNat =
      ∑ v ∈ Finset.range n, (s.worker v).fetches.toNat + stage.fetches.toNat := by
  have sum := sum_eq_of_others (fun v => (s.worker v).fetches.toNat)
    (fun v => (Function.update workers w stage v).fetches.toNat) (Finset.mem_range.mpr below) ?_
  · simpa using sum
  · intro v apart
    rw [Function.update_of_ne apart,others v]

theorem WorkerMove.fetches (stopped : s.running = false) (move : WorkerMove s w cause stage owner active) :
    stage.fetches = (s.worker w).fetches ∨ s.queue = [] := by
  have never : s.running ≠ true := by simp [stopped]
  cases move with
  | fetch _ running _ | retry _ _ _ _ running => exact absurd running never
  | leave _ empty _ => exact .inr empty
  | lock here _ => rcases here with here | here <;> exact .inl (by rw [here]; rfl)
  | begin here | stopped here | cached here | relock here | ready here | block here | wait here | drained here | finish here
  | timeout here | spurious here => exact .inl (by rw [here]; rfl)

theorem WorkerMove.asleep (stopped : s.running = false) (move : WorkerMove s w cause stage owner active)
    (sleeps : stage.sleeps = true) : (s.worker w).sleeps = true := by
  cases move with
  | block _ running _ =>
    rw [stopped] at running
    cases running
  | wait here => rw [here]; rfl
  | _ => cases sleeps

theorem CallMove.asleep (stopped : s.running = false) (move : CallMove s a cause reply owner) (sleeps : reply.sleeps = true) :
    (s.call a).sleeps = true := by
  cases move with
  | block _ running _ =>
    rw [stopped] at running
    cases running
  | wait here => rw [here]; rfl
  | _ => cases sleeps

theorem Woken.asleep {before after : Nat → Worker} (woken : Woken before after) (sleeps : (after w).sleeps = true) :
    (before w).sleeps = true := by
  rcases woken w with equal | ⟨waits,_⟩
  · rw [← equal]
    exact sleeps
  · rw [waits]
    rfl

theorem CallsWoken.asleep {before after : Agent Tid → RunCall T} (woken : CallsWoken before after)
    (sleeps : (after a).sleeps = true) : (before a).sleeps = true := by
  rcases woken with rfl | rfl
  · exact sleeps
  · obtain ⟨task,blocking⟩ := RunCall.wake_sleeps sleeps
    rw [blocking]
    rfl

variable [DecidableEq Tid]

theorem Turns.model (turn : Turns s cause after) : after.model = s.model := by
  cases turn <;> rfl

theorem Turns.stopped (old : Stopped s) (turn : Turns s cause after) :
    after.running = false ∧ (after.stop = .joining ∨ after.stop = .joined) := by
  cases turn with
  | stop idle _ | notify_all idle => rcases old.left with left | left <;> cases idle.symm.trans left
  | join _ _ => exact ⟨old.stopped,.inr rfl⟩
  | _ => exact ⟨old.stopped,old.left⟩

theorem Stopped.step {label : Label T Tid} (old : Stopped s) (taken : machine.next s label = some after) : Stopped after := by
  have turn := next_turns old.valid.locked taken
  obtain ⟨stopped,left⟩ := turn.stopped old
  exact ⟨ThreadPool.valid.step _ _ _ old.valid trivial taken,old.waits.step old.valid.locked turn,stopped,left⟩

-- What the batches to come leave does not depend on the order of the steps.
theorem Turns.drained (old : Stopped s) (turn : Turns s cause after) : after.drained = s.drained := by
  have below : ∀ w, s.worker w ≠ .unstarted → w < s.threads.length := old.valid.locked.known
  cases turn with
  | none => rfl
  | @worker _ stage _ _ w move =>
    rcases move.fetches old.stopped with same | empty
    · have sum := sum_fetches stage (below w move.lives.1) fun v => Eq.refl (s.worker v).fetches
      unfold ThreadPool.drained fillers
      dsimp only [moves]
      rw [same] at sum
      rw [Nat.add_right_cancel sum]
    · unfold ThreadPool.drained
      dsimp only [moves]
      rw [empty]
      exact (leftAfter_none _ _).trans (leftAfter_none _ _).symm
  | call a move => rfl
  | take w task here found =>
    have sum := sum_fetches .running (below w (by simp [here])) fun v => Eq.refl (s.worker v).fetches
    unfold ThreadPool.drained fillers
    dsimp only [moves]
    rw [here] at sum
    rw [Nat.add_right_cancel sum]
  | batch w n others calls here some least woken called =>
    have sum := sum_fetches (if n = 0 then .returned else .consuming) (below w (by simp [here])) (woken.keeps Worker.fetches rfl)
    have ended : (if n = 0 then Worker.returned else .consuming).fetches = false := by split <;> rfl
    rw [here,ended] at sum
    unfold ThreadPool.drained fillers
    dsimp only
    rw [← Nat.add_right_cancel (m := 0) sum,List.length_drop,least]
    rfl
  | push a task others here running woken => exact absurd running old.still
  | stop idle running => exact absurd running old.still
  | notify_all here => exact absurd here old.notified
  | join here all => rfl

-- Who sleeps after a step slept before it.
theorem Turns.asleep (old : Stopped s) (turn : Turns s cause after) :
    (∀ w, (after.worker w).sleeps = true → (s.worker w).sleeps = true) ∧
    ∀ a, (after.call a).sleeps = true → (s.call a).sleeps = true := by
  have moved : ∀ {others : Nat → Worker} {stage w}, Woken s.worker others → (stage.sleeps = true → (s.worker w).sleeps = true) →
      ∀ v, (Function.update others w stage v).sleeps = true → (s.worker v).sleeps = true := by
    intro others stage w woken mine
    exact (Function.forall_update_iff others fun v stage => stage.sleeps = true → (s.worker v).sleeps = true).mpr
      ⟨mine,fun _ _ => woken.asleep⟩
  have awake : Woken s.worker s.worker := fun _ => .inl rfl
  cases turn with
  | none => exact ⟨fun _ => id,fun _ => id⟩
  | worker w move => exact ⟨moved awake (move.asleep old.stopped),fun _ => id⟩
  | call a move =>
    refine ⟨fun _ => id,?_⟩
    exact (Function.forall_update_iff s.call fun b call => call.sleeps = true → (s.call b).sleeps = true).mpr
      ⟨move.asleep old.stopped,fun _ _ => id⟩
  | take w task here found => exact ⟨moved awake fun absent => (by cases absent),fun _ => id⟩
  | batch w n others calls here some least woken called =>
    refine ⟨moved woken fun absent => ?_,fun _ => (calls_woken called).asleep⟩
    split at absent <;> cases absent
  | push a task others here running woken => exact absurd running old.still
  | stop idle running => exact absurd running old.still
  | notify_all here => exact absurd here old.notified
  | join here all => exact ⟨fun _ => id,fun _ => id⟩

-- After a stop() that came at the right time.
structure Settling (s : ThreadPool T Tid) : Prop where
  stopped : Stopped s
  workers : s.model = .FIXED → ∀ w, (s.worker w).sleeps = false
  calls : ∀ a, (s.call a).sleeps = true → s.drained < kMaxQueueSize * 3 / 4

theorem Settling.step {label : Label T Tid} (old : Settling s) (taken : machine.next s label = some after) : Settling after := by
  have turn := next_turns old.stopped.valid.locked taken
  obtain ⟨workers,calls⟩ := turn.asleep old.stopped
  refine ⟨old.stopped.step taken,fun fixed w => ?_,fun a sleeps => ?_⟩
  · have slept := old.workers (turn.model.symm.trans fixed) w
    by_contra sleeps
    rw [workers w (Bool.of_not_eq_false sleeps)] at slept
    cases slept
  · rw [turn.drained old.stopped]
    exact old.calls a (calls a sleeps)

theorem step_of_next (whole : s.aborted = false) (label : Label T Tid) : machine.next s label = s.step label := by
  unfold machine
  dsimp only
  rw [whole]
  rfl

omit [DecidableEq Tid] in
theorem notify_one_able (s : ThreadPool T Tid) : ∃ woken next, s.notify_one woken = some next := by
  by_cases waits : ∃ w, s.worker w = .waiting
  · obtain ⟨w,waits⟩ := waits
    exact ⟨w,_,if_pos waits⟩
  · have nobody : ∀ w, s.worker w ≠ .waiting := fun w waiting => waits ⟨w,waiting⟩
    refine ⟨0,s,?_⟩
    unfold notify_one
    rw [if_neg (nobody 0),if_pos (List.all_eq_true.mpr fun w _ => decide_eq_true (nobody w))]

omit [DecidableEq Tid] in
theorem takeBatch_able (s : ThreadPool T Tid) (w : Nat) : ∃ woken next, s.takeBatch w woken = some next := by
  have able : ∀ filled : ThreadPool T Tid, ∃ woken next,
      (if filled.queue.isEmpty then some filled else filled.notify_one woken) = some next := by
    intro filled
    split
    · exact ⟨0,_,rfl⟩
    · exact notify_one_able filled
  obtain ⟨woken,next,notified⟩ := able {s with
    batchSize := s.adaptedBatchSize
    cache := Function.update s.cache w ⟨s.queue.take (min s.adaptedBatchSize s.queue.length),0⟩
    queue := s.queue.drop (min s.adaptedBatchSize s.queue.length)
    taken := s.taken ++ [⟨w,s.adaptedBatchSize,s.queue.take (min s.adaptedBatchSize s.queue.length)⟩]}
  exact ⟨woken,_,congrArg (Option.map _) notified⟩

omit [DecidableEq Tid] in
theorem fillLocalCache_able (s : ThreadPool T Tid) (w : Nat) : ∃ woken next, s.fillLocalCache w woken = some next := by
  obtain ⟨woken,next,filled⟩ := takeBatch_able s w
  unfold fillLocalCache
  split
  · split
    · refine ⟨0,?_⟩
      split
      · exact ⟨_,rfl⟩
      · split <;> exact ⟨_,rfl⟩
    · exact ⟨woken,next,filled⟩
  · split
    · exact ⟨0,_,rfl⟩
    · exact ⟨woken,next,filled⟩

-- The steps of the pool's own.
def Own (label : Label T Tid) : Prop := label.cause = .own

-- When nothing goes on, nobody has mutex_: a thread that has it can go on.
theorem Stopped.free (old : Stopped s) (rests : ∀ label : Label T Tid, Own label → s.step label = none) : s.mutex = none := by
  by_contra locked
  obtain ⟨a,held⟩ := Option.ne_none_iff_exists'.mp locked
  rcases old.waits.held a held with holds | ⟨w,_,holds⟩
  · have stuck : s.stepCall a 0 0 = none := rests (.call a 0 0) rfl
    unfold stepCall at stuck
    cases here : s.call a <;> rw [here] at holds stuck <;> cases holds
    · cases stuck
    · cases stuck
    · simp [old.stopped] at stuck
  · have stuck : ∀ woken, s.stepWorker w woken = none := fun woken => rests (.worker w woken) rfl
    unfold stepWorker at stuck
    cases here : s.worker w <;> rw [here] at holds stuck <;> cases holds
    · cases stuck 0
    · cases stuck 0
    · obtain ⟨woken,next,filled⟩ := fillLocalCache_able s w
      cases (stuck woken).symm.trans filled

-- A worker of a pool where nothing goes on has returned or is in a task, or it
-- waits without a timeout.
theorem Stopped.stuck (old : Stopped s) (rests : ∀ label : Label T Tid, Own label → s.step label = none) (w : Nat) :
    s.worker w = .unstarted ∨ s.worker w = .returned ∨ s.worker w = .running ∨ s.worker w = .waiting ∧ s.model = .FIXED := by
  have free := old.free rests
  have stuck : ∀ woken, s.stepWorker w woken = none := fun woken => rests (.worker w woken) rfl
  have holder : (s.worker w).holds ≠ true := by
    intro holds
    cases free.symm.trans (old.valid.locked.workers w holds)
  unfold stepWorker at stuck
  cases here : s.worker w with
  | unstarted => exact .inl rfl
  | returned => exact .inr (.inl rfl)
  | running => exact .inr (.inr (.inl rfl))
  | waiting =>
    refine .inr (.inr (.inr ⟨rfl,?_⟩))
    have late : s.step (.timeout w) = none := rests (.timeout w) rfl
    unfold ThreadPool.step at late
    cases model : s.model with
    | FIXED => rfl
    | CACHE => simp [here,model] at late
  | predicate | blocking | filling => exact absurd (by rw [here]; rfl) holder
  | starting => simp [here] at stuck
  | testing => simp [here,old.stopped] at stuck
  | locking | waking | timedOut => simp [here,free] at stuck
  | consuming =>
    have none := stuck 0
    rw [here] at none
    dsimp only at none
    split at none <;> cases none

theorem Settling.done (old : Settling s) (rests : machine.Rests Own s) : Done s := by
  have idle : ∀ label : Label T Tid, Own label → s.step label = none := fun label own =>
    (step_of_next old.stopped.waits.whole label).symm.trans (rests label own)
  have free := old.stopped.free idle
  have places : ∀ w, s.worker w = .unstarted ∨ s.worker w = .returned ∨ s.worker w = .running := by
    intro w
    rcases old.stopped.stuck idle w with here | here | here | ⟨waits,fixed⟩
    · exact .inl here
    · exact .inr (.inl here)
    · exact .inr (.inr here)
    · have awake := old.workers fixed w
      rw [waits] at awake
      cases awake
  -- nobody takes a batch any more
  have final : s.drained = s.queue.length := by
    have nobody : s.fillers = 0 := by
      refine Finset.sum_eq_zero fun w _ => ?_
      rcases places w with here | here | here <;> (rw [here]; rfl)
    unfold drained
    rw [nobody]
    rfl
  have calls : ∀ a, (s.call a).isIdle = true := by
    intro a
    have stuck : s.stepCall a 0 0 = none := idle (.call a 0 0) rfl
    have holder : (s.call a).holds ≠ true := by
      intro holds
      cases free.symm.trans (old.stopped.valid.locked.calls a holds)
    unfold stepCall at stuck
    cases here : s.call a with
    | idle => rfl
    | locking task | waking task => simp [here,free] at stuck
    | predicate task | blocking task | pushing task => exact absurd (by rw [here]; rfl) holder
    | waiting task =>
      have sleeps : (s.call a).sleeps = true := by rw [here]; rfl
      have room := old.calls a sleeps
      rw [final] at room
      exact absurd room (Nat.not_lt.mpr (old.stopped.waits.full a sleeps))
  have workers : ∀ w < s.threads.length, s.worker w = .returned := by
    intro w below
    rcases places w with here | here | here
    · exact absurd here (old.stopped.waits.begun w below)
    · exact here
    · have stuck : s.step (.finish w) = none := idle (.finish w) rfl
      simp [ThreadPool.step,here,calls] at stuck
  refine ⟨old.stopped.left.resolve_left fun joining => ?_,workers,calls⟩
  have stuck : s.step .join = none := idle .join rfl
  simp [ThreadPool.step,joining] at stuck
  obtain ⟨w,below,here⟩ := stuck
  exact here (workers w below)

-- Whatever the pool and its callers do in whatever order ends, and then
-- everybody has returned.
def Returns (s : ThreadPool T Tid) : Prop := ∃ bound, ∀ labels last, (∀ label ∈ labels, Own label) →
  machine.run s labels = some last → labels.length ≤ bound ∧ (machine.Rests Own last → Done last)

theorem Turns.idles (turn : Turns s .own after) (idle : (s.call a).isIdle = true) : (after.call a).isIdle = true := by
  cases turn with
  | call b move =>
    by_cases same : a = b
    · rw [same,move.busy] at idle
      cases idle
    · dsimp only [answers]
      rw [Function.update_of_ne same]
      exact idle
  | batch w n others calls here some least woken called =>
    exact ((calls_woken called).keeps RunCall.isIdle (fun _ => rfl) a).trans idle
  | push b task others here running woken =>
    dsimp only [answers]
    by_cases same : a = b
    · rw [same,Function.update_self]
      rfl
    · rw [Function.update_of_ne same]
      exact idle
  | _ => exact idle

theorem descends (busy : Finset (Agent Tid)) : machine.Descends (Own (T := T))
    (fun s => Stopped s ∧ ∀ a, a ∉ busy → (s.call a).isIdle = true) (potential busy) := by
  intro s label after old own taken
  obtain ⟨stopped,few⟩ := old
  have turn := next_turns stopped.valid.locked taken
  rw [show label.cause = .own from own] at turn
  exact ⟨⟨stopped.step taken,fun a outside => turn.idles (few a outside)⟩,turn.descends stopped few⟩

theorem Settling.run {labels : List (Label T Tid)} (old : Settling s) (ran : machine.run s labels = some after) : Settling after := by
  have kept : ∀ s (label : Label T Tid) after, Settling s → True → machine.next s label = some after → Settling after :=
    fun _ _ _ valid _ taken => valid.step taken
  exact Machine.run_meets kept old (Machine.meets_labels fun _ _ _ => trivial) ran

theorem Settling.returns (old : Settling s) : Returns s := by
  obtain ⟨busy,few⟩ := old.stopped.waits.few
  refine ⟨potential busy s,fun labels last own ran => ?_⟩
  obtain ⟨_,bound⟩ := (descends busy).length_le ⟨old.stopped,few⟩ own ran
  exact ⟨Nat.le_trans (Nat.le_add_right _ _) bound,(old.run ran).done⟩

-- A worker of a pool without tasks, or a call that no batch makes room for.
def Lost (s : ThreadPool T Tid) : Prop :=
  s.model = .FIXED ∧ s.queue = [] ∧ (∃ w, (s.worker w).sleeps = true) ∨
    kMaxQueueSize * 3 / 4 ≤ s.drained ∧ ∃ a, (s.call a).sleeps = true

omit [DecidableEq Tid] in
theorem WorkerMove.sleeps_on (fixed : s.model = .FIXED) (move : WorkerMove s w .own stage owner active)
    (sleeps : (s.worker w).sleeps = true) : stage.sleeps = true := by
  cases move with
  | wait _ => rfl
  | timeout _ cache => cases fixed.symm.trans cache
  | lock here _ => rcases here with here | here <;> (rw [here] at sleeps; cases sleeps)
  | begin here | stopped here | cached here | fetch here | relock here | ready here | block here | leave here | retry here
  | drained here | finish here =>
    rw [here] at sleeps
    cases sleeps

omit [DecidableEq Tid] in
theorem CallMove.sleeps_on (move : CallMove s a .own reply owner) (sleeps : (s.call a).sleeps = true) :
    reply.sleeps = true := by
  cases move with
  | wait _ => rfl
  | block _ _ => rfl
  | lock here _ => rcases here with here | here <;> (rw [here] at sleeps; cases sleeps)
  | ready here | refuse here =>
    rw [here] at sleeps
    cases sleeps

-- Without tasks nobody notifies notEmpty_.
theorem Turns.worker_lost (old : Stopped s) (turn : Turns s .own after) (fixed : s.model = .FIXED) (empty : s.queue = [])
    (sleeps : (s.worker w).sleeps = true) : after.queue = [] ∧ (after.worker w).sleeps = true := by
  cases turn with
  | worker v move =>
    refine ⟨empty,?_⟩
    dsimp only [moves]
    by_cases same : w = v
    · rw [same,Function.update_self]
      exact move.sleeps_on fixed (same ▸ sleeps)
    · rw [Function.update_of_ne same]
      exact sleeps
  | call a move => exact ⟨empty,sleeps⟩
  | take v task here found =>
    refine ⟨empty,?_⟩
    have apart : w ≠ v := by
      rintro rfl
      rw [here] at sleeps
      cases sleeps
    dsimp only [moves]
    rw [Function.update_of_ne apart]
    exact sleeps
  | batch v n others calls here some least woken called =>
    rcases some with some | ⟨_,running⟩
    · exact absurd empty some
    · exact absurd running old.still
  | push a task others here running woken => exact absurd running old.still
  | stop idle running => exact absurd running old.still
  | notify_all here => exact absurd here old.notified
  | join here all => exact ⟨empty,sleeps⟩

-- A batch that notified notFull_ would leave fewer tasks than all of them.
theorem Turns.call_lost (old : Stopped s) (turn : Turns s .own after) (many : kMaxQueueSize * 3 / 4 ≤ s.drained)
    (sleeps : (s.call a).sleeps = true) : (after.call a).sleeps = true := by
  have later : kMaxQueueSize * 3 / 4 ≤ after.queue.length := by
    rw [← turn.drained old] at many
    exact Nat.le_trans many (leftAfter_le _ _ _)
  cases turn with
  | call b move =>
    dsimp only [answers]
    by_cases same : a = b
    · rw [same,Function.update_self]
      exact move.sleeps_on (same ▸ sleeps)
    · rw [Function.update_of_ne same]
      exact sleeps
  | batch w n others calls here some least woken called =>
    dsimp only at later ⊢
    rw [List.length_drop] at later
    rw [called,if_neg (Nat.not_lt.mpr later)]
    exact sleeps
  | push b task others here running woken => exact absurd running old.still
  | notify_all here => exact sleeps
  | _ => exact sleeps

theorem Lost.step (stopped : Stopped s) (old : Lost s) {label : Label T Tid} (own : Own label)
    (taken : machine.next s label = some after) : Lost after := by
  have turn := next_turns stopped.valid.locked taken
  rw [show label.cause = .own from own] at turn
  rcases old with ⟨fixed,empty,w,sleeps⟩ | ⟨many,a,sleeps⟩
  · obtain ⟨none,slept⟩ := turn.worker_lost stopped fixed empty sleeps
    exact .inl ⟨turn.model.trans fixed,none,w,slept⟩
  · refine .inr ⟨?_,a,turn.call_lost stopped many sleeps⟩
    rw [turn.drained stopped]
    exact many

omit [DecidableEq Tid] in
theorem Lost.not_done (old : Lost s) (valid : Valid s) : ¬Done s := by
  intro done
  rcases old with ⟨_,_,w,sleeps⟩ | ⟨_,a,sleeps⟩
  · have known : s.worker w ≠ .unstarted := by
      intro here
      rw [here] at sleeps
      cases sleeps
    rw [done.workers w (valid.locked.known w known)] at sleeps
    cases sleeps
  · have idle := done.calls a
    cases here : s.call a with
    | idle =>
      rw [here] at sleeps
      cases sleeps
    | _ =>
      rw [here] at idle
      cases idle

theorem Lost.not_returns (old : Lost s) (stopped : Stopped s) : ¬Returns s := by
  intro returns
  obtain ⟨_,returns⟩ := returns
  obtain ⟨busy,few⟩ := stopped.waits.few
  obtain ⟨labels,last,own,ran,rests⟩ := (descends busy).exists_rest ⟨stopped,few⟩
  have kept : ∀ s (label : Label T Tid) after, Stopped s ∧ Lost s → Own label → machine.next s label = some after →
      Stopped after ∧ Lost after := fun _ _ _ old own taken => ⟨old.1.step taken,old.2.step old.1 own taken⟩
  obtain ⟨still,lost⟩ := Machine.run_meets kept ⟨stopped,old⟩ (Machine.meets_labels fun label member _ => own label member) ran
  exact lost.not_done still.valid ((returns labels last own ran).2 rests)

theorem waits : (machine : Machine (ThreadPool T Tid) (Label T Tid)).Preserves (fun _ _ => True) fun s => Valid s ∧ Waits s := by
  refine ⟨?_,fun s label after old _ taken => ?_⟩
  · intro s origin
    obtain ⟨model,numThreads,_,rfl⟩ := origin
    exact ⟨.started model numThreads,.started model numThreads⟩
  · obtain ⟨valid,waits⟩ := old
    exact ⟨ThreadPool.valid.step _ _ _ valid trivial taken,waits.step valid.locked (next_turns valid.locked taken)⟩

-- The pool right after notify_all() of stop().
def notified (s : ThreadPool T Tid) : ThreadPool T Tid := {s with worker := fun w => (s.worker w).wake,stop := .joining}

omit [DecidableEq Tid] in
theorem notified_drained (s : ThreadPool T Tid) : s.notified.drained = s.drained := by
  have woken := Woken.all s.worker
  unfold notified drained fillers
  simp only [woken.keeps Worker.fetches rfl]

theorem notified_stopped (path : machine.Reached s) (taken : machine.next s .notify_all = some after) :
    Stopped s.notified ∧ s.notified = after := by
  obtain ⟨valid,waits⟩ := ThreadPool.waits.reached path
  obtain ⟨later,waiting⟩ := ThreadPool.waits.step _ _ _ ⟨valid,waits⟩ trivial taken
  obtain ⟨here,equal⟩ : s.stop = .notifying ∧ s.notified = after := by
    rw [step_of_next waits.whole] at taken
    simpa [step,notified] using taken
  rw [← equal] at later waiting
  exact ⟨⟨later,waiting,waits.stops.resolve_left (by simp [here]),.inl rfl⟩,equal⟩

omit [DecidableEq Tid] in
theorem Settled.settling (settled : Settled s) (stopped : Stopped s.notified) : Settling s.notified := by
  refine ⟨stopped,fun fixed w => ?_,fun a sleeps => ?_⟩
  · have awake := settled.workers fixed w
    unfold notified
    dsimp only
    cases before : s.worker w with
    | blocking => exact absurd before awake
    | _ => rfl
  · rw [notified_drained]
    exact settled.calls a sleeps

omit [DecidableEq Tid] in
-- What the condition excludes is lost at once.
theorem lost_of_unsettled (waits : Waits s) (missed : ¬Settled s) : Lost s.notified := by
  by_cases calls : ∃ a, (s.call a).sleeps = true ∧ ¬s.drained < kMaxQueueSize * 3 / 4
  · obtain ⟨a,sleeps,many⟩ := calls
    refine .inr ⟨?_,a,sleeps⟩
    rw [notified_drained]
    exact Nat.le_of_not_lt many
  · have room : ∀ a, (s.call a).sleeps = true → s.drained < kMaxQueueSize * 3 / 4 :=
      fun a sleeps => not_not.mp fun many => calls ⟨a,sleeps,many⟩
    have workers : ¬(s.model = .FIXED → ∀ w, s.worker w ≠ .blocking) := fun workers => missed ⟨workers,room⟩
    push Not at workers
    obtain ⟨fixed,w,blocking⟩ := workers
    refine .inl ⟨fixed,waits.blocked w blocking,w,?_⟩
    unfold notified
    dsimp only
    rw [blocking]
    rfl

theorem returns_iff_settled (path : machine.Reached s) (notified : machine.next s .notify_all = some after) :
    (∀ labels last, machine.run after labels = some last → Returns last) ↔ Settled s := by
  obtain ⟨stopped,rfl⟩ := notified_stopped path notified
  constructor
  · intro returns
    by_contra missed
    obtain ⟨_,waits⟩ := ThreadPool.waits.reached path
    exact (lost_of_unsettled waits missed).not_returns stopped (returns [] _ rfl)
  · intro settled labels last ran
    exact ((settled.settling stopped).run ran).returns

-- One worker waits, the other one has mutex_ and run() is blocked on it.
def stopInUse : List (Label Nat Unit) :=
  List.replicate 5 (.worker 0 0) ++ List.replicate 3 (.worker 1 0) ++ [.run (.other ()) 7,.stop]

theorem stop_returns : ∃ s after, machine.run (start .FIXED 2 : ThreadPool Nat Unit) stopInUse = some s ∧
    s.worker 0 = .waiting ∧ s.worker 1 = .predicate ∧ s.call (.other ()) = .locking 7 ∧ s.mutex = some (.worker 1) ∧
    machine.next s .notify_all = some after ∧ ∀ labels last, machine.run after labels = some last → Returns last := by
  have path : machine.Reached (start .FIXED 2 : ThreadPool Nat Unit) := .start ⟨.FIXED,2,Nat.two_pos,rfl⟩
  have ran : machine.run (start .FIXED 2 : ThreadPool Nat Unit) stopInUse = some _ := rfl
  refine ⟨_,_,ran,rfl,rfl,rfl,rfl,rfl,(returns_iff_settled (path.run ran) rfl).mpr ⟨fun _ w => ?_,fun a sleeps => ?_⟩⟩
  · match w with
    | 0 | 1 => exact Worker.noConfusion
    | _ + 2 => exact Worker.noConfusion
  · cases a with
    | worker w => cases sleeps
    | other t => cases sleeps

-- Workers that wait without a timeout, after the notification.
theorem nobody_left_to_step (joining : s.stop = .joining) (fixed : s.model = .FIXED) (calls : ∀ a, s.call a = .idle)
    (workers : ∀ w, s.worker w = .waiting ∨ s.worker w = .unstarted) (some : 0 < s.threads.length)
    (label : Label T Tid) (own : Own label) : machine.next s label = none := by
  have asleep : ∀ w, s.worker w ≠ .running := by
    intro w here
    rcases workers w with other | other <;> cases here.symm.trans other
  have step : s.step label = none := by
    cases label with
    | worker w woken =>
      simp only [ThreadPool.step,stepWorker]
      rcases workers w with here | here <;> rw [here]
    | finish w => simp [ThreadPool.step,asleep]
    | timeout w => simp [ThreadPool.step,fixed]
    | call a now woken => simp only [ThreadPool.step,stepCall,calls]
    | stop => simp [ThreadPool.step,joining]
    | notify_all => simp [ThreadPool.step,joining]
    | join =>
      refine if_neg fun ended => ?_
      have returned := of_decide_eq_true (List.all_eq_true.mp ended.2 0 (List.mem_range.mpr some))
      rcases workers 0 with here | here <;> cases here.symm.trans returned
    | run a task | spurious w | spuriousCall a => cases own
  unfold machine
  dsimp only
  rw [step,ite_self]

-- The worker tests its predicate, stop() notifies, and then the worker waits.
def testThenStop : List (Label Nat Unit) := List.replicate 4 (.worker 0 0) ++ [.stop,.notify_all,.worker 0 0]

theorem worker_left_waiting : ∃ s, machine.run (start .FIXED 1) testThenStop = some s ∧ s.stop = .joining ∧ s.model = .FIXED ∧
    s.worker 0 = .waiting ∧ ∀ label : Label Nat Unit, Own label → machine.next s label = none := by
  refine ⟨_,rfl,rfl,rfl,rfl,?_⟩
  refine nobody_left_to_step rfl rfl (fun _ => rfl) (fun w => ?_) Nat.one_pos
  cases w with
  | zero => exact .inl rfl
  | succ w => exact .inr rfl

end NewMuduo.ThreadPool
