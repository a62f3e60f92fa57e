import NewMuduo.ThreadPoolTasks
import NewMuduo.Termination

namespace NewMuduo.ThreadPool
variable {T Tid : Type} {s after : ThreadPool T Tid} {w : Nat} {a : Agent Tid}
  {stage : Worker} {reply : RunCall T} {owner : Option (Agent Tid)} {active : Nat}

-- On notFull_, or about to be.
def RunCall.sleeps : RunCall T → Bool
  | .blocking _ | .waiting _ => true
  | _ => false

-- What holds of a pool that stop() has not reached yet, besides Valid.
structure Waits (s : ThreadPool T Tid) : Prop where
  held : ∀ a, s.mutex = some a → (s.call a).holds = true ∨ ∃ w, a = .worker w ∧ (s.worker w).holds = true
  blocked : ∀ w, s.worker w = .blocking → s.queue = []
  full : ∀ a, (s.call a).sleeps = true → kMaxQueueSize * 3 / 4 ≤ s.queue.length
  begun : ∀ w < s.threads.length, s.worker w ≠ .unstarted
  stops : s.stop = .idle ∨ s.running = false
  whole : s.aborted = false
  few : ∃ busy : Finset (Agent Tid), ∀ a, a ∉ busy → (s.call a).isIdle = true

theorem WorkerMove.mutex (locked : Locked s) (move : WorkerMove s w cause stage owner active) :
    owner = none ∨ owner = some (.worker w) ∧ stage.holds = true ∨ owner = s.mutex ∧ (s.worker w).holds = false := by
  cases move with
  | lock _ _ | relock _ _ => exact .inr (.inl ⟨rfl,rfl⟩)
  | ready here | block here => exact .inr (.inl ⟨locked.workers w (by rw [here]; rfl),rfl⟩)
  | wait _ | leave _ _ _ | retry _ => exact .inl rfl
  | begin here | stopped here | cached here | fetch here | drained here | finish here | timeout here | spurious here =>
    exact .inr (.inr ⟨rfl,by rw [here]; rfl⟩)

theorem CallMove.mutex (locked : Locked s) (move : CallMove s a cause reply owner) :
    owner = none ∨ owner = some a ∧ reply.holds = true ∨ owner = s.mutex ∧ (s.call a).holds = false := by
  cases move with
  | lock _ _ => exact .inr (.inl ⟨rfl,rfl⟩)
  | ready here | block here => exact .inr (.inl ⟨locked.calls a (by rw [here]; rfl),rfl⟩)
  | wait _ | refuse _ _ => exact .inl rfl
  | run _ idle => exact .inr (.inr ⟨rfl,RunCall.idle_free idle⟩)
  | spurious here => exact .inr (.inr ⟨rfl,by rw [here]; rfl⟩)

-- Who is in run() and holds mutex_ is no worker that holds it.
theorem Locked.apart (locked : Locked s) (calls : (s.call a).holds = true) (works : (s.worker w).holds = true) : False := by
  have same := Option.some.inj ((locked.calls a calls).symm.trans (locked.workers w works))
  rw [same] at calls
  rcases locked.nested w with idle | running
  · rw [RunCall.idle_free idle] at calls
    cases calls
  · rw [running] at works
    cases works

theorem RunCall.wake_sleeps {call : RunCall T} (sleeps : call.wake.sleeps = true) : ∃ task, call = .blocking task := by
  cases call with
  | blocking task => exact ⟨task,rfl⟩
  | _ => cases sleeps

namespace Waits

theorem started (model : Model) (numThreads : Nat) : Waits (start model numThreads : ThreadPool T Tid) := by
  refine ⟨fun _ absent => (by cases absent),fun w here => ?_,fun _ absent => (by cases absent),fun w below here => ?_,.inl rfl,rfl,
    ∅,fun _ _ => rfl⟩
  · unfold start at here
    dsimp only at here
    split at here <;> cases here
  · unfold start at below here
    dsimp only at below here
    rw [List.length_replicate] at below
    rw [if_pos below] at here
    cases here

theorem begins (old : Waits s) {others : Nat → Worker} (woken : Woken s.worker others) (started : stage ≠ .unstarted) :
    ∀ v < s.threads.length, Function.update others w stage v ≠ .unstarted := by
  refine (Function.forall_update_iff others fun v stage => v < s.threads.length → stage ≠ .unstarted).mpr ⟨fun _ => started,?_⟩
  exact fun v _ below here => old.begun v below (woken.was (by simp) here)

-- A worker that starts to block finds no task.
theorem blocks (old : Waits s) {others : Nat → Worker} (woken : Woken s.worker others) (empty : stage = .blocking → s.queue = []) :
    ∀ v, Function.update others w stage v = .blocking → s.queue = [] := by
  refine (Function.forall_update_iff others fun _ stage => stage = .blocking → s.queue = []).mpr ⟨empty,?_⟩
  exact fun v _ blocking => old.blocked v (woken.was (by simp) blocking)

theorem worker (old : Waits s) (locked : Locked s) (move : WorkerMove s w cause stage owner active) :
    Waits {s.moves w stage with mutex := owner,activeThreads := active} := by
  have awake : Woken s.worker s.worker := fun _ => .inl rfl
  refine ⟨fun b held => ?_,old.blocks awake fun blocking => ?_,old.full,old.begins awake ?_,old.stops,old.whole,old.few⟩
  · dsimp only [moves]
    rcases move.mutex locked with none | ⟨mine,holds⟩ | ⟨same,free⟩
    · cases held.symm.trans none
    · rw [Option.some.inj (held.symm.trans mine)]
      exact .inr ⟨w,rfl,by rw [Function.update_self]; exact holds⟩
    · refine (old.held b (same.symm.trans held)).imp_right fun ⟨v,equal,holds⟩ => ⟨v,equal,?_⟩
      have apart : v ≠ w := by
        rintro rfl
        rw [free] at holds
        cases holds
      rw [Function.update_of_ne apart]
      exact holds
  · cases move with
    | block _ _ empty => exact empty
    | _ => cases blocking
  · cases move <;> exact Worker.noConfusion

theorem take (old : Waits s) (here : s.worker w = .consuming) : Waits (s.moves w .running) := by
  have awake : Woken s.worker s.worker := fun _ => .inl rfl
  refine ⟨fun b held => ?_,old.blocks awake (by simp),old.full,old.begins awake (by simp),old.stops,old.whole,old.few⟩
  · refine (old.held b held).imp_right fun ⟨v,equal,holds⟩ => ⟨v,equal,?_⟩
    have apart : v ≠ w := by
      rintro rfl
      rw [here] at holds
      cases holds
    dsimp only [moves]
    rw [Function.update_of_ne apart]
    exact holds

theorem batch (old : Waits s) (locked : Locked s) (here : s.worker w = .filling) (n : Nat) {others : Nat → Worker}
    {calls : Agent Tid → RunCall T} (woken : Woken s.worker others)
    (called : calls = (if s.queue.length - n < kMaxQueueSize * 3 / 4 then fun a => (s.call a).wake else s.call))
    {last : Worker} (ended : last = .returned ∨ last = .consuming) : Waits {s with
      queue := s.queue.drop n
      worker := Function.update others w last
      call := calls
      mutex := none} := by
  refine ⟨fun b held => (by cases held),fun v blocking => ?_,fun b sleeps => ?_,old.begins woken ?_,old.stops,old.whole,?_⟩
  · have empty : s.queue = [] := by
      refine old.blocks woken (fun blocking => ?_) v blocking
      rcases ended with rfl | rfl <;> cases blocking
    dsimp only
    rw [empty,List.drop_nil]
  · dsimp only at sleeps ⊢
    rw [List.length_drop]
    rw [called] at sleeps
    split at sleeps
    · -- a call about to wait would hold mutex_ as well
      obtain ⟨task,blocking⟩ := RunCall.wake_sleeps sleeps
      exact (locked.apart (by rw [blocking]; rfl) (by rw [here]; rfl)).elim
    · rename_i full
      exact Nat.le_of_not_lt full
  · rcases ended with rfl | rfl <;> exact Worker.noConfusion
  · obtain ⟨busy,idle⟩ := old.few
    refine ⟨busy,fun b outside => ?_⟩
    dsimp only
    rw [(calls_woken called).keeps RunCall.isIdle fun _ => rfl]
    exact idle b outside

variable [DecidableEq Tid]

theorem call (old : Waits s) (locked : Locked s) (move : CallMove s a cause reply owner) :
    Waits {s.answers a reply with mutex := owner} := by
  have sleeping : ∀ b, (Function.update s.call a reply b).sleeps = true → kMaxQueueSize * 3 / 4 ≤ s.queue.length := by
    refine (Function.forall_update_iff s.call fun _ call => call.sleeps = true →
      kMaxQueueSize * 3 / 4 ≤ s.queue.length).mpr ⟨fun sleeps => ?_,fun b _ => old.full b⟩
    cases move with
    | block _ _ full => exact Nat.le_trans (Nat.le_of_ble_eq_true rfl) full
    | wait here => exact old.full a (by rw [here]; rfl)
    | _ => cases sleeps
  refine ⟨fun b held => ?_,old.blocked,sleeping,old.begun,old.stops,old.whole,?_⟩
  · dsimp only [answers]
    rcases move.mutex locked with none | ⟨mine,holds⟩ | ⟨same,free⟩
    · cases held.symm.trans none
    · rw [Option.some.inj (held.symm.trans mine),Function.update_self]
      exact .inl holds
    · refine (old.held b (same.symm.trans held)).imp_left fun holds => ?_
      have apart : b ≠ a := by
        rintro rfl
        rw [free] at holds
        cases holds
      rw [Function.update_of_ne apart]
      exact holds
  · obtain ⟨busy,idle⟩ := old.few
    refine ⟨insert a busy,fun b outside => ?_⟩
    obtain ⟨apart,outside⟩ := not_or.mp (mt Finset.mem_insert.mpr outside)
    dsimp only [answers]
    rw [Function.update_of_ne apart]
    exact idle b outside

theorem push (old : Waits s) (locked : Locked s) {task : T} (here : s.call a = .pushing task) {others : Nat → Worker}
    (woken : Woken s.worker others) : Waits {s.answers a .idle with
      queue := s.queue ++ [task]
      worker := others
      mutex := none} := by
  refine ⟨fun b held => (by cases held),fun v blocking => ?_,fun b sleeps => ?_,fun v below here => ?_,old.stops,old.whole,?_⟩
  · have before := woken.was (by simp) blocking
    exact (locked.apart (by rw [here]; rfl) (by rw [before]; rfl)).elim
  · have slept : ∀ b, (Function.update s.call a .idle b).sleeps = true → (s.call b).sleeps = true :=
      (Function.forall_update_iff s.call fun b call => call.sleeps = true → (s.call b).sleeps = true).mpr
        ⟨fun absent => (by cases absent),fun _ _ => id⟩
    dsimp only
    rw [List.length_append]
    exact Nat.le_trans (old.full b (slept b sleeps)) (Nat.le_add_right _ _)
  · exact old.begun v below (woken.was (by simp) here)
  · obtain ⟨busy,idle⟩ := old.few
    exact ⟨busy,(Function.forall_update_iff s.call fun b call => b ∉ busy → call.isIdle = true).mpr ⟨fun _ => rfl,fun b _ => idle b⟩⟩

theorem step (old : Waits s) (locked : Locked s) (turn : Turns s cause after) : Waits after := by
  have stopped : s.stop ≠ .idle → s.running = false := old.stops.resolve_left
  cases turn with
  | none => exact old
  | worker w move => exact old.worker locked move
  | call a move => exact old.call locked move
  | take w task here found =>
    have next := old.take here
    exact ⟨next.held,next.blocked,next.full,next.begun,next.stops,next.whole,next.few⟩
  | batch w n others calls here some least woken called =>
    have next := old.batch locked here n woken called (batch_ends n)
    exact ⟨next.held,next.blocked,next.full,next.begun,next.stops,next.whole,next.few⟩
  | push a task others here running woken =>
    have next := old.push locked here woken
    exact ⟨next.held,next.blocked,next.full,next.begun,next.stops,next.whole,next.few⟩
  | stop idle running => exact ⟨old.held,old.blocked,old.full,old.begun,.inr rfl,old.whole,old.few⟩
  | notify_all here =>
    have woken := Woken.all s.worker
    refine ⟨fun b held => ?_,fun v blocking => ?_,old.full,fun v below unstarted => ?_,.inr (stopped (by simp [here])),old.whole,old.few⟩
    · refine (old.held b held).imp_right fun ⟨v,equal,holds⟩ => ⟨v,equal,?_⟩
      exact (woken.keeps Worker.holds rfl v).trans holds
    · exact old.blocked v (woken.was (by simp) blocking)
    · exact old.begun v below (woken.was (by simp) unstarted)
  | join here all => exact ⟨old.held,old.blocked,old.full,old.begun,.inr (stopped (by simp [here])),old.whole,old.few⟩

end Waits

-- How far a thread is from its end once running_ is false.
def Worker.rank : Worker → Nat
  | .unstarted | .returned => 0
  | .testing => 1
  | .starting | .consuming => 2
  | .running | .filling => 3
  | .timedOut | .predicate => 4
  | .locking | .waking => 5
  | .waiting => 6
  | .blocking => 7

def RunCall.rank : RunCall T → Nat
  | .idle => 0
  | .pushing _ => 1
  | .predicate _ => 2
  | .locking _ | .waking _ => 3
  | .waiting _ => 4
  | .blocking _ => 5

def StopCall.rank : StopCall → Nat
  | .joining => 1
  | _ => 0

-- The steps left to a worker, two for every task it still has.
def Worker.load (stage : Worker) (cache : ThreadLocalCache T) : Nat := stage.rank + 2 * (cache.tasks.length - cache.index)

def potential (busy : Finset (Agent Tid)) (s : ThreadPool T Tid) : Nat :=
  ∑ w ∈ Finset.range s.threads.length, (s.worker w).load (s.cache w) + ∑ a ∈ busy, (s.call a).rank +
    2 * s.queue.length + s.stop.rank

-- After notify_all() of stop().
structure Stopped (s : ThreadPool T Tid) : Prop where
  valid : Valid s
  waits : Waits s
  stopped : s.running = false
  left : s.stop = .joining ∨ s.stop = .joined

theorem Stopped.still (old : Stopped s) : s.running ≠ true := by
  rw [old.stopped]
  exact Bool.false_ne_true

theorem Stopped.notified (old : Stopped s) : s.stop ≠ .notifying := by
  rcases old.left with left | left <;> simp [left]

theorem WorkerMove.rank_lt (stopped : s.running = false) (move : WorkerMove s w .own stage owner active) :
    stage.rank < (s.worker w).rank := by
  have never : s.running ≠ true := by simp [stopped]
  cases move with
  | cached _ running _ | fetch _ running _ | block _ running _ | retry _ _ _ _ running => exact absurd running never
  | lock here _ => rcases here with here | here <;> simp [here,Worker.rank]
  | begin here | stopped here | relock here | ready here | wait here | leave here | drained here | finish here
  | timeout here => simp [here,Worker.rank]

theorem CallMove.rank_lt (stopped : s.running = false) (move : CallMove s a .own reply owner) :
    reply.rank < (s.call a).rank := by
  cases move with
  | block _ running _ =>
    rw [stopped] at running
    cases running
  | lock here _ => rcases here with here | here <;> simp [here,RunCall.rank]
  | ready here | wait here | refuse here => simp [here,RunCall.rank]

theorem CallMove.busy (move : CallMove s a .own reply owner) : (s.call a).isIdle = false := by
  cases move with
  | lock here _ => rcases here with here | here <;> simp [here,RunCall.isIdle]
  | ready here | block here | wait here | refuse here => simp [here,RunCall.isIdle]

theorem Woken.rank_le {before after : Nat → Worker} (woken : Woken before after) (w : Nat) :
    (after w).rank ≤ (before w).rank := by
  rcases woken w with equal | ⟨waits,equal⟩
  · rw [equal]
  · rw [equal,waits]
    exact Nat.le_of_ble_eq_true rfl

theorem CallsWoken.rank_le {before after : Agent Tid → RunCall T} (woken : CallsWoken before after) (a : Agent Tid) :
    (after a).rank ≤ (before a).rank := by
  rcases woken with rfl | rfl
  · exact Nat.le_refl _
  · dsimp only
    cases before a with
    | waiting task => exact Nat.le_of_ble_eq_true rfl
    | _ => exact Nat.le_refl _

theorem sum_load_le {workers : Nat → Worker} {n : Nat} (stage : Worker) (cache : ThreadLocalCache T) (below : w < n)
    (others : ∀ v, (workers v).rank ≤ (s.worker v).rank) :
    ∑ v ∈ Finset.range n, (Function.update workers w stage v).load (Function.update s.cache w cache v) +
      (s.worker w).load (s.cache w) ≤ ∑ v ∈ Finset.range n, (s.worker v).load (s.cache v) + stage.load cache := by
  have sum := sum_le_of_others (fun v => (s.worker v).load (s.cache v))
    (fun v => (Function.update workers w stage v).load (Function.update s.cache w cache v))
    (Finset.mem_range.mpr below) ?_
  · simpa using sum
  · intro v apart
    rw [Function.update_of_ne apart,Function.update_of_ne apart]
    exact Nat.add_le_add_right (others v) _

variable [DecidableEq Tid]

theorem sum_calls_lt {busy : Finset (Agent Tid)} (member : a ∈ busy) (less : reply.rank < (s.call a).rank) :
    ∑ b ∈ busy, (Function.update s.call a reply b).rank < ∑ b ∈ busy, (s.call b).rank := by
  refine Finset.sum_lt_sum (fun b _ => ?_) ⟨a,member,by rw [Function.update_self]; exact less⟩
  by_cases same : b = a
  · rw [same,Function.update_self]
    exact Nat.le_of_lt less
  · rw [Function.update_of_ne same]

theorem Turns.descends {busy : Finset (Agent Tid)} (old : Stopped s) (few : ∀ a, a ∉ busy → (s.call a).isIdle = true)
    (turn : Turns s .own after) : potential busy after < potential busy s := by
  have below : ∀ w, s.worker w ≠ .unstarted → w < s.threads.length := old.valid.locked.known
  cases turn with
  | @worker _ stage _ _ w move =>
    have less := move.rank_lt old.stopped
    have sum := sum_load_le stage (s.cache w) (below w move.lives.1) fun v => Nat.le_refl (s.worker v).rank
    unfold potential
    dsimp only [moves]
    rw [Function.update_eq_self] at sum
    unfold Worker.load at *
    omega
  | call a move =>
    have member : a ∈ busy := by
      by_contra outside
      have idle := few a outside
      rw [move.busy] at idle
      cases idle
    have less := sum_calls_lt member (move.rank_lt old.stopped)
    unfold potential
    dsimp only [answers]
    omega
  | take w task here found =>
    obtain ⟨more,_⟩ := List.getElem?_eq_some_iff.mp found
    have sum := sum_load_le .running ⟨(s.cache w).tasks,(s.cache w).index + 1⟩ (below w (by simp [here]))
      fun v => Nat.le_refl (s.worker v).rank
    have loaded : Worker.running.load ⟨(s.cache w).tasks,(s.cache w).index + 1⟩ < (s.worker w).load (s.cache w) := by
      rw [here]
      unfold Worker.load Worker.rank
      dsimp only
      omega
    unfold potential
    dsimp only [moves]
    omega
  | batch w n others calls here some least woken called =>
    have sum := sum_load_le (if n = 0 then .returned else .consuming) ⟨s.queue.take n,0⟩ (below w (by simp [here]))
      woken.rank_le
    have woke : ∑ a ∈ busy, (calls a).rank ≤ ∑ a ∈ busy, (s.call a).rank :=
      Finset.sum_le_sum fun a _ => (calls_woken called).rank_le a
    have loaded : (if n = 0 then Worker.returned else .consuming).load ⟨s.queue.take n,0⟩ ≤ 2 + 2 * n := by
      unfold Worker.load
      dsimp only
      rw [List.length_take]
      split <;> unfold Worker.rank <;> dsimp only <;> omega
    have before : 3 ≤ (s.worker w).load (s.cache w) := by
      rw [here]
      exact Nat.le_add_right 3 _
    unfold potential
    dsimp only
    rw [List.length_drop]
    omega
  | push a task others here running woken => exact absurd running old.still
  | stop idle running => exact absurd running old.still
  | notify_all here => exact absurd here old.notified
  | join here all =>
    unfold potential
    dsimp only
    rw [here]
    exact Nat.lt_succ_self _

end NewMuduo.ThreadPool
