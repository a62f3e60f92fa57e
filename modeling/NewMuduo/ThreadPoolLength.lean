import NewMuduo.ThreadPoolTasks

namespace NewMuduo.ThreadPool
variable {T Tid : Type} {s after : ThreadPool T Tid} {a : Agent Tid} {w woken : Nat} {now : Int}

def queueSize (s : ThreadPool T Tid) : Nat := s.queueLength

-- toAdd new Threads at the end of threads_, each started once: a second start
-- fails its assert.
def Hired (s : ThreadPool T Tid) (toAdd : Nat) (after : ThreadPool T Tid) : Prop :=
  after.aborted = false ∧ after.threads = s.threads ++ List.replicate toAdd true ∧
    ∀ i < toAdd, after.worker (s.threads.length + i) = .starting

def RunCall.isPushing : RunCall T → Bool
  | .pushing _ => true
  | _ => false

-- A run() that goes on to push its task.
def pushes (s : ThreadPool T Tid) : Label T Tid → Bool
  | .call a _ _ => s.running && (s.call a).isPushing
  | _ => false

-- A sampled run() after which the pool should grow.
def due (s : ThreadPool T Tid) : Label T Tid → Bool
  | .call a now woken => s.pushes (.call a now woken) && decide (s.model = .CACHE ∧ s.runCounter % SAMPLE_INTERVAL = 0 ∧
      queueHighWatermark < s.queue.length + 1 ∧ s.activeThreads < maxThreads ∧ cooldownMs < now - s.lastScaleUpTime)
  | _ => false

theorem due_pushes {label : Label T Tid} (due : s.due label = true) : s.pushes label = true := by
  cases label with
  | call a now woken => exact (Bool.and_eq_true_iff.mp due).1
  | _ => cases due

theorem due_room {label : Label T Tid} (due : s.due label = true) : s.activeThreads < maxThreads := by
  cases label with
  | call a now woken => exact (of_decide_eq_true (Bool.and_eq_true_iff.mp due).2).2.2.2.1
  | _ => cases due

-- Indices from 1 on are those of the new Threads only when there was one before.
theorem scaleUp_hires (calm : s.aborted = false) (one : s.threads = [true]) (toAdd : Nat) : s.Hired toAdd (s.scaleUp toAdd) := by
  unfold scaleUp
  induction toAdd with
  | zero => exact ⟨calm,(List.append_nil _).symm,fun _ absent => absurd absent (Nat.not_lt_zero _)⟩
  | succ n ih =>
    rw [List.range_succ,List.foldl_append]
    obtain ⟨quiet,threads,begun⟩ := ih
    generalize (List.range n).foldl _ s = grown at quiet threads begun ⊢
    have length : grown.threads.length = n + 1 := by
      rw [threads,one,List.length_append,List.length_replicate]
      exact Nat.add_comm _ _
    have last : (grown.threads ++ [false])[n + 1]? = some false := by
      rw [← length]
      exact List.getElem?_concat_length
    simp only [List.foldl_cons,List.foldl_nil]
    unfold startThread
    dsimp only
    rw [if_pos last]
    refine ⟨quiet,?_,fun i below => ?_⟩
    · dsimp only [moves]
      rw [List.set_append_right _ _ (Nat.le_of_eq length),length,Nat.sub_self,threads,List.replicate_succ',← List.append_assoc]
      rfl
    · dsimp only [moves]
      rw [one,List.length_singleton]
      rcases Nat.lt_succ_iff_lt_or_eq.mp below with before | rfl
      · rw [Function.update_of_ne (by omega)]
        have earlier := begun i before
        rw [one] at earlier
        exact earlier
      · rw [Nat.add_comm]
        exact Function.update_self _ _ _

theorem scaleUp_aborts (more : 1 < s.threads.length) (started : ∀ thread ∈ s.threads, thread = true) (some : 0 < toAdd) :
    (s.scaleUp toAdd).aborted = true := by
  have stays : ∀ (s : ThreadPool T Tid) (i : Nat), s.aborted = true →
      ({s with threads := s.threads ++ [false]}.startThread i).aborted = true := by
    intro s i lost
    unfold startThread
    split
    · exact lost
    · rfl
  unfold scaleUp
  induction toAdd with
  | zero => exact absurd some (Nat.lt_irrefl _)
  | succ n ih =>
    rw [List.range_succ,List.foldl_append]
    cases n with
    | zero =>
      have here : (s.threads ++ [false])[1]? = .some true := by
        rw [List.getElem?_append_left more,List.getElem?_eq_getElem more]
        exact congrArg _ (started _ (List.getElem_mem more))
      simp only [List.range_zero,List.foldl_nil,List.foldl_cons]
      unfold startThread
      dsimp only
      rw [if_neg (by rw [here]; simp)]
    | succ n => exact stays _ _ (ih (Nat.succ_pos n))

-- Were queueLength_ kept, only a pool of one thread could grow.
theorem scaleUp_hires_iff (calm : s.aborted = false) (crew : s.threads ≠ []) (started : ∀ thread ∈ s.threads, thread = true)
    (some : 0 < toAdd) : s.Hired toAdd (s.scaleUp toAdd) ↔ s.threads.length = 1 := by
  constructor
  · intro hired
    have least := List.length_pos_of_ne_nil crew
    by_contra other
    have lost := scaleUp_aborts (by omega) started some
    cases hired.1.symm.trans lost
  · intro length
    obtain ⟨thread,only⟩ := List.length_eq_one_iff.mp length
    have same := started thread (by rw [only]; exact List.mem_singleton_self _)
    rw [same] at only
    exact scaleUp_hires calm only toAdd

theorem takeBatch_accepts (taken : s.takeBatch w woken = some after) : after.accepted = s.accepted := by
  unfold takeBatch at taken
  obtain ⟨notified,how,rfl⟩ := Option.map_eq_some_iff.mp taken
  rw [notifyNotFull_parts]
  split at how
  · cases how
    rfl
  · obtain ⟨others,_,rfl⟩ := notify_one_parts how
    rfl

theorem fillLocalCache_accepts (taken : s.fillLocalCache w woken = some after) : after.accepted = s.accepted := by
  unfold fillLocalCache at taken
  repeat' split at taken
  all_goals first | exact takeBatch_accepts taken | (cases taken; rfl)

theorem stepWorker_accepts (taken : s.stepWorker w woken = some after) : after.accepted = s.accepted := by
  unfold stepWorker at taken
  repeat' split at taken
  all_goals first | exact fillLocalCache_accepts taken | (cases taken <;> rfl)

variable [DecidableEq Tid]

theorem step_accepts {label : Label T Tid} (taken : s.step label = some after) (unpushed : s.pushes label = false) :
    after.accepted = s.accepted := by
  cases label with
  | worker w woken => exact stepWorker_accepts taken
  | call a now woken =>
    simp only [step] at taken
    unfold pushes at unpushed
    dsimp only at unpushed
    unfold stepCall at taken
    split at taken
    · split at taken <;> cases taken
      rfl
    · split at taken <;> cases taken
      rfl
    · cases taken
      rfl
    · cases taken
      rfl
    · rename_i here
      rw [here] at unpushed
      split at taken
      · cases taken
        rfl
      · rename_i running
        rw [Bool.of_not_eq_false running] at unpushed
        cases unpushed
    all_goals cases taken
  | spuriousCall a =>
    simp only [step] at taken
    split at taken <;> cases taken
    rfl
  | run a task =>
    simp only [step] at taken
    split at taken <;> cases taken
    unfold run
    split <;> rfl
  | finish w | timeout w | spurious w | stop | notify_all | join =>
    simp only [step] at taken
    split at taken <;> cases taken
    rfl

-- What a pushing run() leaves, sampled or not.
theorem pushes_parts {label : Label T Tid} (calm : s.queueLength = 0) (pushes : s.pushes label = true)
    (taken : s.step label = some after) : ∃ a task, s.call a = .pushing task ∧ after.mutex = none ∧
      after.queue = s.queue ++ [task] ∧ after.queueLength = 0 ∧ after.threads = s.threads := by
  cases label with
  | call a now woken =>
    simp only [step] at taken
    obtain ⟨running,pushing⟩ := Bool.and_eq_true_iff.mp pushes
    cases here : s.call a with
    | pushing task =>
      unfold stepCall at taken
      rw [here] at taken
      dsimp only at taken
      rw [if_neg (by simp [running])] at taken
      obtain ⟨_,_,_,rfl⟩ := push_parts calm taken
      exact ⟨a,task,here,rfl,rfl,calm,rfl⟩
    | _ => rw [here] at pushing; cases pushing
  | _ => cases pushes

-- What the counter owes a thread that lets go of mutex_, and the pool a due run().
def Counts (s : ThreadPool T Tid) (label : Label T Tid) : Prop := ∀ after, machine.next s label = some after →
  s.mutex ≠ none → after.mutex = none → after.queueSize = after.queue.length

def Grows (s : ThreadPool T Tid) (label : Label T Tid) : Prop := ∀ after, machine.next s label = some after →
  s.due label = true → s.Hired (min (maxThreads - s.activeThreads) 2) after

theorem next_step {label : Label T Tid} (taken : machine.next s label = some after) : s.step label = some after := by
  unfold machine at taken
  dsimp only at taken
  split at taken
  · cases taken
  · exact taken

theorem not_counts {label : Label T Tid} (locked : Locked s) (taken : machine.next s label = some after)
    (counts : s.Counts label) : s.pushes label = false := by
  by_contra pushes
  obtain ⟨a,task,here,free,queue,length,_⟩ := pushes_parts locked.calm (Bool.of_not_eq_false pushes) (next_step taken)
  have held := locked.calls a (by rw [here]; rfl)
  have same := counts after taken (by simp [held]) free
  unfold queueSize at same
  rw [length,queue,List.length_append] at same
  cases same

theorem not_grows {label : Label T Tid} (locked : Locked s) (taken : machine.next s label = some after)
    (grows : s.Grows label) : s.due label = false := by
  by_contra wanted
  have due := Bool.of_not_eq_false wanted
  obtain ⟨_,_,_,_,_,_,threads⟩ := pushes_parts locked.calm (due_pushes due) (next_step taken)
  have more := congrArg List.length (grows after taken due).2.1
  rw [threads,List.length_append,List.length_replicate] at more
  have room := due_room due
  omega

-- While nothing was pushed queue_ is as empty as queueLength_ says.
structure Unpushed (s : ThreadPool T Tid) : Prop where
  whole : Valid s
  nothing : s.accepted = []

omit [DecidableEq Tid] in
theorem Unpushed.queue (old : Unpushed s) : s.queue = [] := by
  have order := old.whole.stored.order
  rw [old.nothing] at order
  exact (List.append_eq_nil_iff.mp order.symm).2

theorem Unpushed.next {label : Label T Tid} (old : Unpushed s) (unpushed : s.pushes label = false)
    (taken : machine.next s label = some after) : Unpushed after :=
  ⟨valid.step _ _ _ old.whole trivial taken,(step_accepts (next_step taken) unpushed).trans old.nothing⟩

section runs
variable {labels : List (Label T Tid)} {final : ThreadPool T Tid}

theorem counts_iff_unpushed (origin : machine.start s) (ran : machine.run s labels = some final) :
    machine.Meets (fun s label => Counts s label ∧ Grows s label) s labels ↔
      machine.Meets (fun s label => s.pushes label = false) s labels := by
  have first : Valid s := valid.start s origin
  have none : Unpushed s := by
    obtain ⟨model,numThreads,_,rfl⟩ := origin
    exact ⟨first,rfl⟩
  constructor
  · intro met
    refine Machine.meets_of_meets (fun s label after old _ => valid.step s label after old trivial) ?_ first ran met
    exact fun s label after old both taken => not_counts old.locked taken both.1
  · intro met
    refine Machine.meets_of_meets (fun s label after old => old.next) ?_ none ran met
    intro s label _ old unpushed _
    refine ⟨fun after taken _ _ => ?_,fun _ _ due => ?_⟩
    · have next := old.next unpushed taken
      unfold queueSize
      rw [next.queue,next.whole.locked.calm]
      rfl
    · cases unpushed.symm.trans (due_pushes due)

theorem grows_iff_never_due (origin : machine.start s) (ran : machine.run s labels = some final) :
    machine.Meets Grows s labels ↔ machine.Meets (fun s label => s.due label = false) s labels := by
  have first : Valid s := valid.start s origin
  constructor
  · intro met
    refine Machine.meets_of_meets (fun s label after old _ => valid.step s label after old trivial) ?_ first ran met
    exact fun s label after old grows taken => not_grows old.locked taken grows
  · intro met
    refine Machine.meets_of_meets (fun s label after old _ => valid.step s label after old trivial) ?_ first ran met
    exact fun s label after old quiet taken _ _ due => by cases quiet.symm.trans due

-- The first task pushed is one that queueLength_ misses, and no run() ever adds
-- a thread.
theorem queueSize_iff_never_pushed (origin : machine.start s) (ran : machine.run s labels = some final) :
    (machine.Meets (fun s label => Counts s label ∧ Grows s label) s labels ↔
      machine.Meets (fun s label => s.pushes label = false) s labels) ∧
    (machine.Meets Grows s labels ↔ machine.Meets (fun s label => s.due label = false) s labels) :=
  ⟨counts_iff_unpushed origin ran,grows_iff_never_due origin ran⟩

end runs

-- A worker waits, stop() comes, and the late run() gives up.
def stoppedInTime : List (Label Nat Unit) :=
  List.replicate 5 (.worker 0 0) ++ [.stop,.run (.other ()) 7] ++ List.replicate 3 (.call (.other ()) 0 0)

theorem queueSize_of_stopped_pool : ∃ s, machine.run (start .CACHE 4) stoppedInTime = some s ∧
    machine.Meets (fun s label => Counts s label ∧ Grows s label) (start .CACHE 4) stoppedInTime ∧
    machine.Meets Grows (start .CACHE 4) stoppedInTime := by
  have ends : (machine.run (start .CACHE 4) stoppedInTime).map (fun s => s.queueSize) = some 0 := by decide +kernel
  obtain ⟨s,ran,_⟩ := Option.map_eq_some_iff.mp ends
  have origin : machine.start (start .CACHE 4 : ThreadPool Nat Unit) := ⟨.CACHE,4,by decide,rfl⟩
  exact ⟨s,ran,(queueSize_iff_never_pushed origin ran).1.mpr (by decide +kernel),
    (queueSize_iff_never_pushed origin ran).2.mpr (by decide +kernel)⟩

def oneTask : List (Label Nat Unit) := .run (.other ()) 7 :: List.replicate 3 (.call (.other ()) 0 0)

theorem queueSize_misses_first_task : ∃ s, machine.run (start .CACHE 4) oneTask = some s ∧ s.mutex = none ∧
    s.queueSize = 0 ∧ s.queue = [7] ∧
    ¬machine.Meets (fun s label => Counts s label ∧ Grows s label) (start .CACHE 4) oneTask := by
  have ends : (machine.run (start .CACHE 4) oneTask).map (fun s => (s.mutex,s.queueSize,s.queue)) = some (none,0,[7]) := by
    decide +kernel
  obtain ⟨s,ran,last⟩ := Option.map_eq_some_iff.mp ends
  obtain ⟨free,rest⟩ := Prod.mk.inj last
  obtain ⟨size,queue⟩ := Prod.mk.inj rest
  refine ⟨s,ran,free,size,queue,?_⟩
  rw [counts_iff_unpushed ⟨.CACHE,4,by decide,rfl⟩ ran]
  decide +kernel

end NewMuduo.ThreadPool
