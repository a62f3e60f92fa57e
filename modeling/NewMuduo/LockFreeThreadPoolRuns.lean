import NewMuduo.LockFreeThreadPoolTokens

namespace NewMuduo.LockFreeThreadPool
variable {T Tid : Type} [DecidableEq Tid] {s after : LockFreeThreadPool T Tid} {queue : MPMCQueue T Tid} {k : Nat} {t : Tid}
  {task : T} {movedFrom : T → T} {initial : T} {worker : Tid → Bool}

-- When a producer reads the sequence of its cell, no dequeue of the lap before
-- still has that cell.
def Vacated (k : Nat) (s : LockFreeThreadPool T Tid) : Label T Tid → Prop
  | .step t _ => ∀ item pos, s.queue.threads t = .enqSequence item pos → 2 ^ k ≤ pos →
      ∀ u, MPMCQueue.deqOwns (s.queue.threads u) ≠ some (pos - 2 ^ k)
  | _ => True

-- When a worker reads the sequence of its cell, no enqueue that won that
-- position is still to publish it.
def Published (s : LockFreeThreadPool T Tid) : Label T Tid → Prop
  | .step t _ => ∀ pos, s.queue.threads t = .deqSequence pos → ∀ u, MPMCQueue.enqOwns (s.queue.threads u) ≠ some pos
  | _ => True

-- What a move of the queue does to the two records of failed calls.
theorem enqueues_records (fits : Fits (.enqueue task,s.queue.threads t)) (moved : s.queue.Moves k movedFrom t queue) :
    (s.enqueues queue t task).missed = s.missed ∧
    ((s.enqueues queue t task).dropped = s.dropped ∨
      ∃ item pos, s.queue.threads t = .enqSequence item pos ∧ s.queue.sequence (MPMCQueue.cell k pos) < pos) := by
  have ended := Function.update_self t Thread.idle s.queue.threads
  have going : Fits (.enqueue task,queue.threads t) → (s.enqueues queue t task).missed = s.missed ∧
      ((s.enqueues queue t task).dropped = s.dropped ∨
        ∃ item pos, s.queue.threads t = .enqSequence item pos ∧ s.queue.sequence (MPMCQueue.cell k pos) < pos) := by
    intro busy
    unfold enqueues
    rw [enqueue_busy busy]
    exact ⟨rfl,.inl rfl⟩
  cases moved with
  | enqFull now refused =>
    unfold enqueues
    rw [returned_last (s := s) ended rfl]
    exact ⟨rfl,.inr ⟨_,_,now,refused⟩⟩
  | enqPublish now =>
    unfold enqueues
    rw [returned_last (s := s) ended rfl]
    exact ⟨rfl,.inl rfl⟩
  | rest => exact going fits
  | enqLoad now | enqFree now | enqBehind now | enqRetry now | enqClaim now | enqWrite now =>
    exact going (by simp [MPMCQueue.put,Fits])
  | callEnqueue _ now | callDequeue now | deqLoad now | deqReady now | deqEmpty now | deqBehind now | deqClaim now
  | deqRetry now | deqRead now | deqRelease now =>
    rw [now] at fits
    exact fits.elim

theorem dequeues_records (fits : Fits ((.dequeue : PoolStage T),s.queue.threads t))
    (moved : s.queue.Moves k movedFrom t queue) : (s.dequeues queue t).dropped = s.dropped ∧
    ((s.dequeues queue t).missed = s.missed ∨
      ∃ pos, s.queue.threads t = .deqSequence pos ∧ s.queue.sequence (MPMCQueue.cell k pos) < pos + 1) := by
  have ended := Function.update_self t Thread.idle s.queue.threads
  have going : Fits ((.dequeue : PoolStage T),queue.threads t) → (s.dequeues queue t).dropped = s.dropped ∧
      ((s.dequeues queue t).missed = s.missed ∨
        ∃ pos, s.queue.threads t = .deqSequence pos ∧ s.queue.sequence (MPMCQueue.cell k pos) < pos + 1) := by
    intro busy
    unfold dequeues
    rw [dequeue_busy busy]
    exact ⟨rfl,.inl rfl⟩
  cases moved with
  | deqEmpty now refused =>
    unfold dequeues
    rw [returned_last (s := s) ended rfl]
    exact ⟨rfl,.inr ⟨_,now,refused⟩⟩
  | deqRelease now =>
    unfold dequeues
    rw [returned_last (s := s) ended rfl]
    exact ⟨rfl,.inl rfl⟩
  | rest => exact going fits
  | deqLoad now | deqReady now | deqBehind now | deqRetry now | deqClaim now | deqRead now =>
    exact going (by simp [MPMCQueue.put,Fits])
  | callEnqueue _ now | callDequeue now | enqLoad now | enqFree now | enqFull now | enqBehind now | enqClaim now
  | enqRetry now | enqWrite now | enqPublish now =>
    rw [now] at fits
    exact fits.elim

theorem Sound.records (old : Sound k s) (turned : Turns k movedFrom s t after) :
    (after.dropped = s.dropped ∨
      ∃ item pos, s.queue.threads t = .enqSequence item pos ∧ s.queue.sequence (MPMCQueue.cell k pos) < pos) ∧
    (after.missed = s.missed ∨
      ∃ pos, s.queue.threads t = .deqSequence pos ∧ s.queue.sequence (MPMCQueue.cell k pos) < pos + 1) := by
  have fits := old.fits t
  unfold place at fits
  cases turned with
  | enqueue here moved =>
    rw [here] at fits
    obtain ⟨missed,dropped⟩ := enqueues_records fits moved
    exact ⟨dropped,.inl missed⟩
  | dequeue here moved =>
    rw [here] at fits
    obtain ⟨dropped,missed⟩ := dequeues_records fits moved
    exact ⟨.inl dropped,missed⟩
  | _ => exact ⟨.inl rfl,.inl rfl⟩

-- A refused call ends in this step.
theorem Sound.step_drops (old : Sound k s) (movedFrom : T → T) (spurious : Bool)
    (here : s.queue.threads t = .enqSequence item pos) (refused : s.queue.sequence (MPMCQueue.cell k pos) < pos) :
    ∃ task, (s.step k movedFrom t spurious).dropped = s.dropped ++ [task] := by
  obtain ⟨task,stage⟩ := old.enqueueing here
  have ended := Function.update_self t Thread.idle s.queue.threads
  have full := s.queue.step_full movedFrom spurious here refused
  refine ⟨task,?_⟩
  unfold step
  rw [show s.stage t = .enqueue task from congrArg Prod.fst stage,full]
  dsimp only
  unfold LockFreeThreadPool.enqueues
  rw [returned_last (s := s) ended rfl]

theorem Sound.step_misses (old : Sound k s) (movedFrom : T → T) (spurious : Bool)
    (here : s.queue.threads t = .deqSequence pos) (refused : s.queue.sequence (MPMCQueue.cell k pos) < pos + 1) :
    (s.step k movedFrom t spurious).missed = s.missed + 1 := by
  have ended := Function.update_self t Thread.idle s.queue.threads
  have none := s.queue.step_empty movedFrom spurious here refused
  unfold step
  rw [show s.stage t = .dequeue from congrArg Prod.fst (old.dequeueing here),none]
  dsimp only
  unfold LockFreeThreadPool.dequeues
  rw [returned_last (s := s) ended rfl]

theorem Sound.apply (old : Sound k s) (large : 0 < k) (label : Label T Tid) (able : s.allowed worker label = true) :
    Sound k (s.apply k movedFrom label) := by
  obtain ⟨_,turned⟩ := apply_turns movedFrom worker label able
  exact old.turns large turned

theorem Sound.apply_records (old : Sound k s) (label : Label T Tid) (able : s.allowed worker label = true) :
    ((s.apply k movedFrom label).dropped = s.dropped ∨ ∃ t spurious item pos, label = .step t spurious ∧
      s.queue.threads t = .enqSequence item pos ∧ s.queue.sequence (MPMCQueue.cell k pos) < pos) ∧
    ((s.apply k movedFrom label).missed = s.missed ∨ ∃ t spurious pos, label = .step t spurious ∧
      s.queue.threads t = .deqSequence pos ∧ s.queue.sequence (MPMCQueue.cell k pos) < pos + 1) := by
  cases label with
  | run t task => exact ⟨.inl rfl,.inl rfl⟩
  | finish t => exact ⟨.inl rfl,.inl rfl⟩
  | step t spurious =>
    obtain ⟨dropped,missed⟩ := old.records (step_turns movedFrom worker spurious able)
    refine ⟨dropped.imp_right ?_,missed.imp_right ?_⟩
    · intro given
      obtain ⟨item,pos,here,refused⟩ := given
      exact ⟨t,spurious,item,pos,rfl,here,refused⟩
    · intro given
      obtain ⟨pos,here,refused⟩ := given
      exact ⟨t,spurious,pos,rfl,here,refused⟩

-- A producer with a slot is refused exactly when a dequeue is late.
theorem Sound.dropped_iff (old : Sound k s) (large : 0 < k) (label : Label T Tid)
    (able : s.allowed worker label = true) :
    (s.apply k movedFrom label).dropped = s.dropped ↔ Vacated k s label := by
  constructor
  · intro same
    cases label with
    | run t task => trivial
    | finish t => trivial
    | step t spurious =>
      intro item pos here wraps u owned
      obtain ⟨task,lost⟩ := old.step_drops movedFrom spurious here ((old.refused_iff large here).mpr ⟨wraps,u,owned⟩)
      have longer := congrArg List.length (lost.symm.trans same)
      simp at longer
  · intro vacated
    refine (old.apply_records label able).1.resolve_right ?_
    intro given
    obtain ⟨t,spurious,item,pos,rfl,here,refused⟩ := given
    obtain ⟨wraps,u,owned⟩ := (old.refused_iff large here).mp refused
    exact vacated item pos here wraps u owned

theorem Sound.dropped_back (old : Sound k s) (label : Label T Tid) (able : s.allowed worker label = true)
    (sent : (s.apply k movedFrom label).dropped = []) : s.dropped = [] := by
  rcases (old.apply_records label able).1 with same | ⟨t,spurious,item,pos,rfl,here,refused⟩
  · rw [← same]
    exact sent
  · obtain ⟨task,lost⟩ := old.step_drops movedFrom spurious here refused
    have none := lost.symm.trans sent
    simp at none

-- A worker with an item finds nothing exactly when an enqueue is late.
theorem Sound.missed_step (old : Sound k s) (sent : s.dropped = []) (label : Label T Tid)
    (able : s.allowed worker label = true) :
    (Published s label → (s.apply k movedFrom label).missed = s.missed) ∧
    (¬Published s label → (s.apply k movedFrom label).missed = s.missed + 1) := by
  constructor
  · intro published
    refine (old.apply_records label able).2.resolve_right ?_
    intro given
    obtain ⟨t,spurious,pos,rfl,here,refused⟩ := given
    obtain ⟨u,owned⟩ := (old.missed_iff sent here).mp refused
    exact published pos here u owned
  · intro late
    cases label with
    | run t task => exact absurd trivial late
    | finish t => exact absurd trivial late
    | step t spurious =>
      simp only [Published,not_forall,not_not] at late
      obtain ⟨pos,here,u,owned⟩ := late
      exact old.step_misses movedFrom spurious here ((old.missed_iff sent here).mpr ⟨u,owned⟩)

-- Every enqueue of a producer with a slot succeeds throughout a run exactly
-- when each finds the cell of its position given back.
theorem enqueue_succeeds_iff_vacated (large : 0 < k) (labels : List (Label T Tid))
    (ran : (machine k movedFrom initial worker).run (new k initial worker) labels = some s) :
    (machine k movedFrom initial worker).Throughout (fun s => s.dropped = []) (new k initial worker) labels ↔
      (machine k movedFrom initial worker).Meets (Vacated k) (new k initial worker) labels := by
  have sound : ∀ s : LockFreeThreadPool T Tid, Sound k s ∧ s.dropped = [] → s.dropped = [] := fun _ old => old.2
  refine Machine.throughout_iff_meets sound ?_ ?_ ⟨sound_new k initial worker,rfl⟩ ran
  · intro s label after given vacated taken
    obtain ⟨sound,sent⟩ := given
    obtain ⟨able,rfl⟩ := Machine.guarded_parts.mp taken
    exact ⟨sound.apply large label able,((sound.dropped_iff large label able).mpr vacated).trans sent⟩
  · intro s label after given late taken lost
    obtain ⟨sound,sent⟩ := given
    obtain ⟨able,rfl⟩ := Machine.guarded_parts.mp taken
    exact late ((sound.dropped_iff large label able).mp (lost.trans sent.symm))

-- A worker takes the first of two tasks, and the third goes into its cell.
def comesRound : List (Label Nat Nat) :=
  .run 0 10 :: List.replicate 7 (.step 0 false) ++ .run 0 11 :: List.replicate 7 (.step 0 false) ++
    List.replicate 7 (.step 2 false) ++ .run 0 12 :: List.replicate 7 (.step 0 false)

theorem third_enqueue_vacated : (machine 1 id 0 fun t : Nat => 2 ≤ t).Meets (Vacated 1) (new 1 0 fun t => 2 ≤ t) comesRound := by
  refine (enqueue_succeeds_iff_vacated (by decide) _ rfl).mp ?_
  unfold comesRound
  iterate 31
    refine .cons rfl rfl ?_
  rfl

-- Two tasks, two workers, and the first worker stops before it gives its cell back.
def overtaken : List (Label Nat Nat) :=
  .run 0 10 :: List.replicate 7 (.step 0 false) ++ .run 0 11 :: List.replicate 7 (.step 0 false) ++
    List.replicate 4 (.step 2 false) ++ List.replicate 7 (.step 3 false) ++ .run 0 12 :: List.replicate 3 (.step 0 false)

theorem enqueue_fails_behind_slow_worker : ∃ s, (machine 1 id 0 fun t => 2 ≤ t).run (new 1 0 fun t => 2 ≤ t) overtaken = some s ∧
    s.dropped = [12] ∧ s.slotsSem = 0 := ⟨_,rfl,rfl,rfl⟩

-- No thread is in run() behind its slot acquire, and no worker between its item
-- acquire and the end of its dequeue.
def Quiet (s : LockFreeThreadPool T Tid) : Prop :=
  ∀ t, match s.stage t with
    | .enqueue _ | .releaseItem | .dequeue => False
    | _ => True

-- The positions whose cells hold a task.
def tasks (queue : MPMCQueue T Tid) : List Nat :=
  (List.range queue.enqueuePos).filter fun p => queue.filled p && !queue.freed p

omit [DecidableEq Tid] in
theorem Sound.quiet_idle (old : Sound k s) (quiet : s.Quiet) (t : Tid) :
    s.queue.threads t = .idle ∧ holdsItem (s.place t) = false := by
  have here := quiet t
  have idle : s.queue.threads t = .idle := by
    refine old.idle rfl ?_ ?_
    · intro task stage
      rw [stage] at here
      exact here
    · intro stage
      rw [stage] at here
      exact here
  refine ⟨idle,?_⟩
  unfold place
  rw [idle]
  cases stage : s.stage t <;> rw [stage] at here <;> first | exact here.elim | rfl

omit [DecidableEq Tid] in
-- With no call under way every position before the cursor is filled, and those
-- before the other are freed.
theorem Sound.quiet_tasks (old : Sound k s) (quiet : s.Quiet) :
    (tasks s.queue).length + s.queue.dequeuePos = s.queue.enqueuePos := by
  have nobody : ∀ t, MPMCQueue.enqOwns (s.queue.threads t) = none ∧ MPMCQueue.deqOwns (s.queue.threads t) = none := by
    intro t
    rw [(old.quiet_idle quiet t).1]
    exact ⟨rfl,rfl⟩
  have filled : ∀ p, p < s.queue.enqueuePos → s.queue.filled p = true := by
    intro p below
    by_contra unfilled
    obtain ⟨t,owned⟩ := (old.placed.enq.held_iff p).mp ⟨below,Bool.not_eq_true _ ▸ unfilled⟩
    rw [(nobody t).1] at owned
    cases owned
  have freed : ∀ p, s.queue.freed p = true ↔ p < s.queue.dequeuePos := by
    refine fun p => ⟨old.placed.freedBelow p,fun below => ?_⟩
    by_contra kept
    obtain ⟨t,owned⟩ := (old.placed.deq.held_iff p).mp ⟨below,Bool.not_eq_true _ ▸ kept⟩
    rw [(nobody t).2] at owned
    cases owned
  obtain ⟨rest,sum⟩ := Nat.exists_eq_add_of_le old.placed.behind
  have first : (List.range s.queue.dequeuePos).filter (fun p => s.queue.filled p && !s.queue.freed p) = [] := by
    refine List.filter_eq_nil_iff.mpr fun p inside => ?_
    simp [(freed p).mpr (List.mem_range.mp inside)]
  have last : ((List.range rest).map (s.queue.dequeuePos + ·)).filter (fun p => s.queue.filled p && !s.queue.freed p) =
      (List.range rest).map (s.queue.dequeuePos + ·) := by
    refine List.filter_eq_self.mpr fun p inside => ?_
    obtain ⟨q,below,rfl⟩ := List.mem_map.mp inside
    have short := List.mem_range.mp below
    have kept : s.queue.freed (s.queue.dequeuePos + q) ≠ true := fun gone => by
      have before := (freed _).mp gone
      omega
    simp [filled (s.queue.dequeuePos + q) (by omega),kept]
  unfold tasks
  rw [sum,List.range_add,List.filter_append,first,last,List.nil_append,List.length_map,List.length_range]
  exact Nat.add_comm _ _

-- itemsSem_ counts the tasks in the queue, in a state where no call is under
-- way, exactly when no dequeue of the run came before the publication it met.
theorem items_count_iff_published (large : 0 < k) (labels : List (Label T Tid))
    (ran : (machine k movedFrom initial worker).run (new k initial worker) labels = some s) (sent : s.dropped = [])
    (quiet : s.Quiet) :
    s.itemsSem = (tasks s.queue).length ↔
      (machine k movedFrom initial worker).Meets Published (new k initial worker) labels := by
  have kept : ∀ s label after, Sound k s → (machine k movedFrom initial worker).next s label = some after → Sound k after := by
    intro s label after sound taken
    obtain ⟨able,rfl⟩ := Machine.guarded_parts.mp taken
    exact sound.apply large label able
  have back : ∀ s label after, Sound k s → (machine k movedFrom initial worker).next s label = some after →
      after.dropped = [] → s.dropped = [] := by
    intro s label after sound taken sent
    obtain ⟨able,rfl⟩ := Machine.guarded_parts.mp taken
    exact sound.dropped_back label able sent
  have same : ∀ s label after, Sound k s → s.dropped = [] → Published s label →
      (machine k movedFrom initial worker).next s label = some after → after.missed = s.missed := by
    intro s label after sound sent published taken
    obtain ⟨able,rfl⟩ := Machine.guarded_parts.mp taken
    exact (sound.missed_step sent label able).1 published
  have more : ∀ s label after, Sound k s → s.dropped = [] → ¬Published s label →
      (machine k movedFrom initial worker).next s label = some after → s.missed < after.missed := by
    intro s label after sound sent late taken
    obtain ⟨able,rfl⟩ := Machine.guarded_parts.mp taken
    rw [(sound.missed_step sent label able).2 late]
    exact Nat.lt_succ_self _
  obtain ⟨_,_,counted⟩ := Machine.run_count_iff_meets kept back same more (sound_new k initial worker) ran sent
  have preserved : (machine k movedFrom initial worker : Machine (LockFreeThreadPool T Tid) (Label T Tid)).Preserves
      (fun _ _ => True) (Sound k) := by
    refine ⟨?_,fun s label after old _ taken => kept s label after old taken⟩
    rintro _ rfl
    exact sound_new k initial worker
  have sound := preserved.reached (Machine.Reached.run (.start rfl) ran)
  have balance := sound.items.eq_iff.mpr fun t => (sound.quiet_idle quiet t).2
  have size := sound.quiet_tasks quiet
  rw [sent] at balance
  rw [← counted]
  simp only [List.length_nil,new] at balance ⊢
  omega

-- Two tasks are queued, and a worker dequeues one of them.
def oneOfTwoTaken : List (Label Nat Nat) :=
  .run 0 10 :: List.replicate 7 (.step 0 false) ++ .run 1 11 :: List.replicate 7 (.step 1 false) ++ List.replicate 7 (.step 2 false)

theorem one_task_counted : (machine 1 id 0 fun t : Nat => 2 ≤ t).Meets Published (new 1 0 fun t => 2 ≤ t) oneOfTwoTaken := by
  refine (items_count_iff_published (by decide) _ rfl rfl fun t => ?_).mp rfl
  match t with
  | 0 | 1 | 2 | _ + 3 => trivial

-- The producer of the first position stops before it publishes, the second
-- announces its task, and the worker meets the first cell.
def unannounced : List (Label Nat Nat) :=
  .run 0 10 :: List.replicate 4 (.step 0 false) ++ .run 1 11 :: List.replicate 7 (.step 1 false) ++
    List.replicate 3 (.step 2 false) ++ List.replicate 3 (.step 0 false) ++ List.replicate 7 (.step 2 false) ++ [.finish 2]

theorem task_left_with_workers_asleep : ∃ s, (machine 1 id 0 fun t => t = 2).run (new 1 0 fun t => t = 2) unannounced = some s ∧
    s.dropped = [] ∧ s.Quiet ∧ s.itemsSem = 0 ∧ tasks s.queue = [1] ∧ s.stage 2 = .acquireItem := by
  refine ⟨_,rfl,rfl,?_,rfl,rfl,rfl⟩
  intro t
  match t with
  | 0 | 1 | 2 | _ + 3 => trivial

theorem sound_reached (large : 0 < k) (path : (machine k movedFrom initial worker).Reached s) : Sound k s := by
  have preserved : (machine k movedFrom initial worker : Machine (LockFreeThreadPool T Tid) (Label T Tid)).Preserves
      (fun _ _ => True) (Sound k) := by
    refine Machine.guarded_preserves ?_ fun s label old able => old.apply large label able
    rintro _ rfl
    exact sound_new k initial worker
  exact preserved.reached path

-- Neither semaphore ever counts more than Capacity. Between calls they are off
-- by this much: a failed dequeue has taken a token that its task still needs, and
-- a failed enqueue a slot that no worker gives back, though its token stays.
theorem semaphores_account (large : 0 < k) (path : (machine k movedFrom initial worker).Reached s) :
    s.itemsSem ≤ 2 ^ k ∧ s.slotsSem ≤ 2 ^ k ∧ (s.Quiet → (∀ t task, s.stage t ≠ .releaseSlot task) →
      s.itemsSem + s.missed = (tasks s.queue).length + s.dropped.length ∧
      s.slotsSem + (tasks s.queue).length + s.dropped.length = 2 ^ k) := by
  have sound := sound_reached large path
  have behind := sound.placed.behind
  obtain ⟨carried,_,items⟩ := sound.items
  obtain ⟨held,_,slots⟩ := sound.slots
  refine ⟨by omega,by omega,fun quiet settled => ?_⟩
  have size := sound.quiet_tasks quiet
  have noItem := sound.items.eq_iff.mpr fun t => (sound.quiet_idle quiet t).2
  have noSlot := sound.slots.eq_iff.mpr fun t => by
    have here := quiet t
    unfold place
    rw [(sound.quiet_idle quiet t).1]
    cases stage : s.stage t with
    | releaseSlot task => exact absurd stage (settled t task)
    | enqueue | releaseItem | dequeue =>
      rw [stage] at here
      exact here.elim
    | _ => rfl
  constructor <;> omega

theorem token_lost : ∃ s, (machine 1 id 0 fun t => t = 2).run (new 1 0 fun t => t = 2) unannounced = some s ∧ s.missed = 1 ∧
    s.itemsSem + 1 = (tasks s.queue).length + s.dropped.length ∧ s.slotsSem + (tasks s.queue).length + s.dropped.length = 2 := by
  have ran : ∃ s, (machine 1 id 0 fun t => t = 2).run (new 1 0 fun t => t = 2) unannounced = some s ∧ s.missed = 1 ∧ s.Quiet ∧
      ∀ t task, s.stage t ≠ .releaseSlot task := by
    refine ⟨_,rfl,rfl,?_,?_⟩
    · intro t
      match t with
      | 0 | 1 | 2 | _ + 3 => trivial
    · intro t task there
      match t with
      | 0 | 1 | 2 | _ + 3 => cases there
  obtain ⟨s,ran,missed,quiet,settled⟩ := ran
  obtain ⟨_,_,books⟩ := semaphores_account (by decide) (Machine.Reached.run (.start rfl) ran)
  obtain ⟨items,slots⟩ := books quiet settled
  rw [missed] at items
  exact ⟨s,ran,missed,items,slots⟩

end NewMuduo.LockFreeThreadPool
