import NewMuduo.DynamicThreadPool
import NewMuduo.Tally
import NewMuduo.Monitor

namespace NewMuduo.DynamicThreadPool
variable {T Tid : Type} {s after : DynamicThreadPool T Tid} {w woken : Nat} {a : Agent Tid}

-- The ways of a worker that change nothing but its stage, queueMutex_ and its
-- lastActive.
inductive WorkerMove (s : DynamicThreadPool T Tid) (w : Nat) : Worker → Option (Agent Tid) → (Nat → Int) → Prop where
  | begin : s.worker w = .starting → WorkerMove s w .locking s.queueMutex (Function.update s.lastActive w s.clock)
  | lock : s.worker w = .locking → s.queueMutex = none → WorkerMove s w .holding (some (.worker w)) s.lastActive
  | wait : s.worker w = .holding → s.tasks = [] ∨ s.stop = true → WorkerMove s w .waiting none s.lastActive
  | wake : s.worker w = .waiting → WorkerMove s w .waking s.queueMutex s.lastActive
  | relock : s.worker w = .waking → s.queueMutex = none → WorkerMove s w .woken (some (.worker w)) s.lastActive
  | stopped : s.worker w = .woken → s.stop = true → s.tasks = [] → WorkerMove s w (.reading .exit) s.queueMutex s.lastActive
  | tired : s.worker w = .woken → s.stop = false → s.tasks = [] → s.config.minThreads < s.threads →
      s.config.idleTimeout ≤ seconds (s.clock - s.lastActive w) → WorkerMove s w (.reading .exit) s.queueMutex s.lastActive
  | nothing : s.worker w = .woken → s.stop = false → s.tasks = [] → WorkerMove s w .shrinkClock none s.lastActive
  | finish : s.worker w = .running → (s.submit (.worker w)).isIdle = true →
      WorkerMove s w .shrinkClock s.queueMutex (Function.update s.lastActive w s.clock)
  | clock : s.worker w = .shrinkClock → WorkerMove s w (.shrinkThreads s.clock) s.queueMutex s.lastActive
  | few (now : Int) : s.worker w = .shrinkThreads now → WorkerMove s w .locking s.queueMutex s.lastActive
  | many (now : Int) : s.worker w = .shrinkThreads now → s.config.minThreads < s.threads →
      WorkerMove s w (.shrinkTime now) s.queueMutex s.lastActive
  | cooling (now : Int) : s.worker w = .shrinkTime now → WorkerMove s w .locking s.queueMutex s.lastActive
  | cooled (now : Int) : s.worker w = .shrinkTime now → WorkerMove s w (.shrinkLocking now) s.queueMutex s.lastActive
  | shrinkLock (now : Int) : s.worker w = .shrinkLocking now → s.queueMutex = none →
      WorkerMove s w (.shrinking now) (some (.worker w)) s.lastActive
  | shrink (now : Int) : s.worker w = .shrinking now → s.canShrink w now →
      WorkerMove s w (.reading (.shrink now)) s.queueMutex s.lastActive
  | keep (now : Int) : s.worker w = .shrinking now → WorkerMove s w .locking none s.lastActive
  | read (why : Decrement) : s.worker w = .reading why → WorkerMove s w (.writing why s.threads) s.queueMutex s.lastActive

inductive CallMove (s : DynamicThreadPool T Tid) (a : Agent Tid) : Submit T → Option (Agent Tid) → Prop where
  | lock (entry : TaskEntry T) : s.submit a = .locking entry → s.queueMutex = none → CallMove s a (.pushing entry) (some a)
  | few : s.submit a = .expandThreads → s.threads < s.config.maxThreads → CallMove s a .expandClock s.queueMutex
  | clock : s.submit a = .expandClock → CallMove s a (.expandTime s.clock) s.queueMutex
  | cooled (now : Int) : s.submit a = .expandTime now → s.config.expandCooldown * sec ≤ now - s.lastExpandTime →
      CallMove s a (.expandLocking now) s.queueMutex
  | relock (now : Int) : s.submit a = .expandLocking now → s.queueMutex = none → CallMove s a (.expanding now) (some a)

-- submit returns without a new worker.
inductive Return (s : DynamicThreadPool T Tid) (a : Agent Tid) : Option (Agent Tid) → Prop where
  | many : s.submit a = .expandThreads → s.config.maxThreads ≤ s.threads → Return s a s.queueMutex
  | cooling (now : Int) : s.submit a = .expandTime now → Return s a s.queueMutex
  | refuse (now : Int) : s.submit a = .expanding now → ¬s.canExpand now → Return s a none

-- Some of those that waited are on their way back.
def Woken (before after : Nat → Worker) : Prop := ∀ w, after w = before w ∨ before w = .waiting ∧ after w = .waking

variable [DecidableEq Tid]

-- Everything a step can do, with its label where it takes a task or writes threads_.
inductive Turns (s : DynamicThreadPool T Tid) : Label T Tid → DynamicThreadPool T Tid → Prop where
  | none : Turns s label s
  | tick (duration : Nat) : Turns s label {s with clock := s.clock + duration}
  | count (i : Nat) : s.constructor = .reading i → i < s.config.initialThreads →
      Turns s label {s with constructor := .writing i s.threads}
  | built (i : Nat) : s.constructor = .reading i → s.config.initialThreads ≤ i → Turns s label {s with constructor := .finished}
  | resize (i read : Nat) : s.constructor = .writing i read →
      Turns s .construct {s.spawn with threads := incremented read,constructor := .reading (i + 1)}
  | worker (w : Nat) : WorkerMove s w stage owner active →
      Turns s label {s.moves w stage with queueMutex := owner,lastActive := active}
  | take (w : Nat) (entry : TaskEntry T) (rest : List (TaskEntry T)) :
      s.worker w = .holding ∧ s.stop = false ∨ s.worker w = .woken → s.tasks = entry :: rest → Turns s (.worker w)
      {s.moves w (if entry.task.isSome then .running else .shrinkClock) with
        tasks := rest
        taken := s.taken ++ [(w,entry)]
        queueMutex := .none}
  | decrement (w read : Nat) (why : Decrement) : s.worker w = .writing why read → Turns s (.worker w) (s.decrement w read why)
  | call (a : Agent Tid) : CallMove s a call owner → Turns s label {s.answers a call with queueMutex := owner}
  | submit (a : Agent Tid) (task : Option T) : s.maySubmit a = true → Turns s label (s.submits a task)
  | push (a : Agent Tid) (entry : TaskEntry T) : s.submit a = .pushing entry → Turns s label
      {s.answers a .notifying with
        tasks := s.tasks ++ [entry]
        pushed := s.pushed ++ [entry]
        queueMutex := .none}
  | notify (a : Agent Tid) (others : Nat → Worker) : s.submit a = .notifying → Woken s.worker others →
      Turns s label {s.answers a .expandThreads with worker := others}
  | returns (a : Agent Tid) : Return s a owner → Turns s label {s.returns a with queueMutex := owner}
  | expand (a : Agent Tid) (now : Int) : s.submit a = .expanding now → s.canExpand now →
      Turns s label {(s.expand now).returns a with queueMutex := .none}
  | stopAll : s.stopAll = .idle → s.constructor = .finished → s.outside = 0 → Turns s label {s with stopAll := .locking}
  | stop : s.stopAll = .locking → s.queueMutex = .none → Turns s label {s with stop := true,stopAll := .notifying}
  | notify_all : s.stopAll = .notifying → Turns s label {s with worker := fun w => (s.worker w).wake,stopAll := .polling}
  | poll : s.stopAll = .polling → s.queueMutex = .none → s.threads = 0 → Turns s label {s with stopAll := .returned}

omit [DecidableEq Tid] in
theorem notify_one_parts (notified : s.notify_one woken = some after) :
    ∃ others, Woken s.worker others ∧ after = {s with worker := others} := by
  unfold notify_one at notified
  split at notified
  · rename_i waits
    cases notified
    refine ⟨Function.update s.worker woken .waking,fun w => ?_,rfl⟩
    by_cases same : w = woken
    · rw [same,Function.update_self]
      exact .inr ⟨waits,rfl⟩
    · exact .inl (Function.update_of_ne same _ _)
  · split at notified
    · cases notified
      exact ⟨s.worker,fun _ => .inl rfl,rfl⟩
    · cases notified

theorem woke_turns (here : s.worker w = .woken) : Turns s (.worker w) (s.woke w) := by
  unfold woke
  split
  · rename_i ended
    exact .worker w (.stopped here ended.1 (List.isEmpty_iff.mp ended.2))
  · rename_i going
    split
    · rename_i idle
      obtain ⟨empty,running,many,late⟩ := idle
      exact .worker w (.tired here running (List.isEmpty_iff.mp empty) many late)
    · unfold take
      split
      · rename_i empty
        have running : s.stop = false := by
          refine Bool.of_not_eq_true fun stopped => going ⟨stopped,?_⟩
          rw [empty]
          rfl
        exact .worker w (.nothing here running empty)
      · rename_i entry rest found
        exact .take w entry rest (.inr here) found

theorem stepWorker_turns (taken : s.stepWorker w = some after) : Turns s (.worker w) after := by
  unfold stepWorker at taken
  split at taken
  · rename_i here
    cases taken
    exact .worker w (.begin here)
  · rename_i here
    split at taken <;> cases taken
    rename_i free
    exact .worker w (.lock here (Option.isNone_iff_eq_none.mp free))
  · rename_i here
    split at taken <;> cases taken
    · rename_i waits
      exact .worker w (.wait here (waits.imp_left List.isEmpty_iff.mp))
    · rename_i some
      obtain ⟨more,running⟩ := not_or.mp some
      unfold take
      split
      · rename_i empty
        rw [empty] at more
        exact absurd rfl more
      · rename_i entry rest found
        exact .take w entry rest (.inl ⟨here,Bool.of_not_eq_true running⟩) found
  · rename_i here
    split at taken <;> cases taken
    rename_i free
    exact .worker w (.relock here (Option.isNone_iff_eq_none.mp free))
  · rename_i here
    cases taken
    exact woke_turns here
  · rename_i here
    cases taken
    exact .worker w (.clock here)
  · rename_i now here
    cases taken
    split
    · exact .worker w (.few now here)
    · rename_i many
      exact .worker w (.many now here (Nat.lt_of_not_le many))
  · rename_i now here
    cases taken
    split
    · exact .worker w (.cooling now here)
    · exact .worker w (.cooled now here)
  · rename_i now here
    split at taken <;> cases taken
    rename_i free
    exact .worker w (.shrinkLock now here (Option.isNone_iff_eq_none.mp free))
  · rename_i now here
    split at taken <;> cases taken
    · rename_i able
      exact .worker w (.shrink now here able)
    · exact .worker w (.keep now here)
  · rename_i why here
    cases taken
    exact .worker w (.read why here)
  · rename_i why read here
    cases taken
    exact .decrement w read why here
  all_goals cases taken

theorem stepSubmit_turns (taken : s.stepSubmit a woken = some after) : Turns s (.call a woken) after := by
  unfold stepSubmit at taken
  split at taken
  · rename_i entry here
    split at taken <;> cases taken
    rename_i free
    exact .call a (.lock entry here (Option.isNone_iff_eq_none.mp free))
  · rename_i entry here
    cases taken
    exact .push a entry here
  · rename_i here
    obtain ⟨notified,how,rfl⟩ := Option.map_eq_some_iff.mp taken
    obtain ⟨others,woke,rfl⟩ := notify_one_parts how
    exact .notify a others here woke
  · rename_i here
    cases taken
    split
    · rename_i many
      exact .returns a (.many here many)
    · rename_i few
      exact .call a (.few here (Nat.lt_of_not_le few))
  · rename_i here
    cases taken
    exact .call a (.clock here)
  · rename_i now here
    cases taken
    split
    · exact .returns a (.cooling now here)
    · rename_i cooled
      exact .call a (.cooled now here (Int.not_lt.mp cooled))
  · rename_i now here
    split at taken <;> cases taken
    rename_i free
    exact .call a (.relock now here (Option.isNone_iff_eq_none.mp free))
  · rename_i now here
    split at taken <;> cases taken
    · rename_i able
      exact .expand a now here able
    · rename_i unable
      exact .returns a (.refuse now here unable)
  · cases taken

theorem construct_turns (taken : s.construct = some after) : Turns s .construct after := by
  unfold construct at taken
  split at taken
  · rename_i i here
    split at taken <;> cases taken
    · rename_i more
      exact .count i here more
    · rename_i all
      exact .built i here (Nat.le_of_not_lt all)
  · rename_i i read here
    cases taken
    exact .resize i read here
  · cases taken

theorem stepStopAll_turns (taken : s.stepStopAll = some after) : Turns s .stopAll after := by
  unfold stepStopAll at taken
  split at taken
  · rename_i here
    split at taken <;> cases taken
    rename_i able
    exact .stopAll here able.1 able.2
  · rename_i here
    split at taken <;> cases taken
    rename_i free
    exact .stop here (Option.isNone_iff_eq_none.mp free)
  · rename_i here
    cases taken
    exact .notify_all here
  · rename_i here
    split at taken <;> cases taken
    rename_i free
    split
    · rename_i none
      exact .poll here (Option.isNone_iff_eq_none.mp free) none
    · exact .none
  · cases taken

theorem step_turns {label : Label T Tid} (taken : s.step label = some after) : Turns s label after := by
  cases label with
  | tick duration =>
    cases taken
    exact .tick duration
  | construct => exact construct_turns taken
  | worker w => exact stepWorker_turns taken
  | finish w =>
    simp only [step] at taken
    split at taken <;> cases taken
    rename_i able
    exact .worker w (.finish able.1 able.2)
  | wake w =>
    simp only [step] at taken
    split at taken <;> cases taken
    rename_i able
    exact .worker w (.wake able)
  | submit a task =>
    simp only [step] at taken
    split at taken <;> cases taken
    rename_i able
    exact .submit a task able
  | call a woken => exact stepSubmit_turns taken
  | stopAll => exact stepStopAll_turns taken

-- stopAll() begins once.
theorem Turns.idle_before {label : Label T Tid} (turn : Turns s label after) (idle : after.stopAll = .idle) : s.stopAll = .idle := by
  cases turn with
  | stopAll _ _ _ => cases idle
  | stop _ _ => cases idle
  | notify_all _ => cases idle
  | poll _ _ _ => cases idle
  | decrement w read why here => cases why <;> exact idle
  | _ => exact idle

def Worker.holds : Worker → Bool
  | .holding | .woken | .shrinking _ | .reading _ | .writing _ _ => true
  | _ => false

def Submit.holds : Submit T → Bool
  | .pushing _ | .expanding _ => true
  | _ => false

omit [DecidableEq Tid] in
theorem Submit.idle_free {call : Submit T} (idle : call.isIdle = true) : call.holds = false := by
  cases call with
  | idle => rfl
  | _ => cases idle

omit [DecidableEq Tid] in
theorem Woken.keeps {before after : Nat → Worker} {Value : Type u} (woken : Woken before after) (value : Worker → Value)
    (same : value .waking = value .waiting) (w : Nat) : value (after w) = value (before w) := by
  rcases woken w with equal | ⟨waits,woke⟩
  · rw [equal]
  · rw [woke,waits]
    exact same

theorem Woken.all (before : Nat → Worker) : Woken before fun w => (before w).wake := by
  intro w
  dsimp only
  cases before w with
  | waiting => exact .inr ⟨rfl,rfl⟩
  | _ => exact .inl rfl

-- Where the calls of submit come from.
def inUserCode (s : DynamicThreadPool T Tid) : Agent Tid → Prop
  | .worker w => s.worker w = .running
  | .other _ => True

omit [DecidableEq Tid] in
theorem worker_injective : Function.Injective (Agent.worker : Nat → Agent Tid) := fun _ _ equal => Agent.worker.inj equal

-- Who holds queueMutex_, and which workers there are.
structure Locked (s : DynamicThreadPool T Tid) : Prop where
  workers : ∀ w, (s.worker w).holds = true → s.queueMutex = some (.worker w)
  calls : ∀ a, (s.submit a).holds = true → s.queueMutex = some a
  nested : ∀ w, (s.submit (.worker w)).isIdle = true ∨ s.worker w = .running
  fresh : ∀ w, s.spawned ≤ w → s.worker w = .unspawned

namespace Locked

omit [DecidableEq Tid] in
theorem started (config : Config) (clock : Int) : Locked (start config clock : DynamicThreadPool T Tid) :=
  ⟨fun _ absent => (by cases absent),fun _ absent => (by cases absent),fun _ => .inl rfl,fun _ _ => rfl⟩

omit [DecidableEq Tid] in
-- A worker outside submit goes on.
theorem moves (old : Locked s) (idle : (s.submit (.worker w)).isIdle = true) (there : s.worker w ≠ .unspawned)
    (mine : stage.holds = true → owner = some (.worker w))
    (others : ∀ b, b ≠ .worker w → s.queueMutex = some b → owner = some b) : Locked {s.moves w stage with queueMutex := owner} := by
  have apart : ∀ a, (s.submit a).holds = true → a ≠ .worker w := by
    rintro a holds rfl
    rw [Submit.idle_free idle] at holds
    cases holds
  refine ⟨Holding.update old.workers worker_injective mine others,Holding.elsewhere old.calls apart others,?_,?_⟩
  · intro v
    by_cases same : v = w
    · rw [same]
      exact .inl idle
    · exact (old.nested v).imp_right fun running => (Function.update_of_ne same _ _).trans running
  · intro v beyond
    by_cases same : v = w
    · rw [same] at beyond
      exact absurd (old.fresh w beyond) there
    · exact (Function.update_of_ne same _ _).trans (old.fresh v beyond)

-- A thread in the user's code goes on in submit.
theorem answers {call : Submit T} (old : Locked s) (user : s.inUserCode a) (mine : call.holds = true → owner = some a)
    (others : ∀ b, b ≠ a → s.queueMutex = some b → owner = some b) : Locked {s.answers a call with queueMutex := owner} := by
  have apart : ∀ w, (s.worker w).holds = true → .worker w ≠ a := by
    rintro w holds rfl
    have running : s.worker w = .running := user
    rw [running] at holds
    cases holds
  refine ⟨Holding.elsewhere old.workers apart others,Holding.update old.calls Function.injective_id mine others,fun w => ?_,old.fresh⟩
  by_cases same : .worker w = a
  · rw [← same] at user
    exact .inr user
  · refine (old.nested w).imp_left fun idle => ?_
    dsimp only [DynamicThreadPool.answers]
    rw [Function.update_of_ne same]
    exact idle

omit [DecidableEq Tid] in
theorem wakes (old : Locked s) {others : Nat → Worker} (woken : Woken s.worker others) : Locked {s with worker := others} := by
  have kept : ∀ {stage} w, stage ≠ .waiting → s.worker w = stage → others w = stage := by
    intro stage w awake here
    rcases woken w with equal | ⟨waits,_⟩
    · exact equal.trans here
    · exact absurd (here.symm.trans waits) awake
  exact ⟨Holding.same old.workers (woken.keeps Worker.holds rfl),old.calls,fun w => (old.nested w).imp_right (kept w (by simp)),
    fun w beyond => kept w (by simp) (old.fresh w beyond)⟩

omit [DecidableEq Tid] in
-- Who is in submit is in the user's code.
theorem user (old : Locked s) (busy : (s.submit a).isIdle = false) : s.inUserCode a := by
  cases a with
  | other t => trivial
  | worker w =>
    refine (old.nested w).resolve_left fun idle => ?_
    rw [busy] at idle
    cases idle

omit [DecidableEq Tid] in
theorem spawn (old : Locked s) : Locked s.spawn := by
  have unspawned := old.fresh s.spawned (Nat.le_refl _)
  have none : Worker.starting.holds = true → s.queueMutex = some (.worker s.spawned) := fun absent => (by cases absent)
  refine ⟨Holding.update old.workers worker_injective none fun _ _ held => held,old.calls,fun w => ?_,fun w beyond => ?_⟩
  · refine (old.nested w).imp_right fun running => ?_
    have apart : w ≠ s.spawned := by
      rintro rfl
      cases running.symm.trans unspawned
    exact (Function.update_of_ne apart _ _).trans running
  · have apart : w ≠ s.spawned := Nat.ne_of_gt beyond
    exact (Function.update_of_ne apart _ _).trans (old.fresh w (Nat.le_of_succ_le beyond))

omit [DecidableEq Tid] in
theorem WorkerMove.lives (move : WorkerMove s w stage owner active) :
    s.worker w ≠ .unspawned ∧ (s.worker w = .running → (s.submit (.worker w)).isIdle = true) := by
  cases move with
  | finish here idle => simp [here,idle]
  | _ => simp [*]

omit [DecidableEq Tid] in
theorem worker (old : Locked s) (move : WorkerMove s w stage owner active) : Locked {s.moves w stage with queueMutex := owner} := by
  have idle := (old.nested w).elim id (WorkerMove.lives move).2
  refine old.moves idle (WorkerMove.lives move).1 (fun holds => ?_) fun b apart held => ?_
  · cases move with
    | lock _ _ | relock _ _ | shrinkLock _ _ _ => rfl
    | stopped here | tired here | shrink _ here | read _ here => exact old.workers w (by rw [here]; rfl)
    | _ => cases holds
  · cases move with
    | lock _ free | relock _ free | shrinkLock _ _ free => cases held.symm.trans free
    | wait here | nothing here | keep _ here => exact Holding.released (old.workers w (by rw [here]; rfl)) b apart held
    | _ => exact held

theorem call (old : Locked s) {reply : Submit T} (move : CallMove s a reply owner) :
    Locked {s.answers a reply with queueMutex := owner} := by
  have busy : (s.submit a).isIdle = false := by
    cases move with
    | lock _ here | few here | clock here | cooled _ here | relock _ here => simp [here,Submit.isIdle]
  refine old.answers (old.user busy) (fun holds => ?_) fun b apart held => ?_
  · cases move with
    | lock _ _ | relock _ _ => rfl
    | _ => cases holds
  · cases move with
    | lock _ _ free | relock _ _ free => cases held.symm.trans free
    | _ => exact held

omit [DecidableEq Tid] in
-- A worker lets go of queueMutex_, to go on elsewhere.
theorem leaves (old : Locked s) (holds : (s.worker w).holds = true) (free : stage.holds = false) :
    Locked {s.moves w stage with queueMutex := none} := by
  have idle : (s.submit (.worker w)).isIdle = true := by
    refine (old.nested w).resolve_right fun running => ?_
    rw [running] at holds
    cases holds
  refine old.moves idle (fun unspawned => ?_) (fun absent => ?_) (Holding.released (old.workers w holds))
  · rw [unspawned] at holds
    cases holds
  · rw [free] at absent
    cases absent

theorem releases {reply : Submit T} (old : Locked s) (holds : (s.submit a).holds = true) (free : reply.holds = false) :
    Locked {s.answers a reply with queueMutex := none} := by
  have busy : (s.submit a).isIdle = false := by
    refine Bool.of_not_eq_true fun idle => ?_
    rw [Submit.idle_free idle] at holds
    cases holds
  refine old.answers (old.user busy) (fun absent => ?_) (Holding.released (old.calls a holds))
  rw [free] at absent
  cases absent

theorem returns (old : Locked s) (back : Return s a owner) : Locked {s.returns a with queueMutex := owner} := by
  have next : Locked {s.answers a .idle with queueMutex := owner} := by
    cases back with
    | many here | cooling _ here =>
      exact old.answers (old.user (by simp [here,Submit.isIdle])) (fun absent => (by cases absent)) fun _ _ held => held
    | refuse _ here => exact old.releases (by rw [here]; rfl) rfl
  exact ⟨next.workers,next.calls,next.nested,next.fresh⟩

theorem step {label : Label T Tid} (old : Locked s) (turn : Turns s label after) : Locked after := by
  cases turn with
  | none => exact old
  | tick _ | count _ _ _ | built _ _ _ | stopAll _ _ _ | stop _ _ | poll _ _ _ => exact ⟨old.workers,old.calls,old.nested,old.fresh⟩
  | resize i read here =>
    have next := old.spawn
    exact ⟨next.workers,next.calls,next.nested,next.fresh⟩
  | worker w move =>
    have next := old.worker move
    exact ⟨next.workers,next.calls,next.nested,next.fresh⟩
  | take w entry rest here found =>
    have holds : (s.worker w).holds = true := by
      rcases here with ⟨here,_⟩ | here <;> (rw [here]; rfl)
    have free : (if entry.task.isSome then Worker.running else .shrinkClock).holds = false := by split <;> rfl
    have next := old.leaves holds free
    exact ⟨next.workers,next.calls,next.nested,next.fresh⟩
  | decrement w read why here =>
    have holds : (s.worker w).holds = true := by rw [here]; rfl
    cases why with
    | exit =>
      have next : Locked {s.moves w .left with queueMutex := none} := old.leaves holds rfl
      exact ⟨next.workers,next.calls,next.nested,next.fresh⟩
    | shrink now =>
      have next : Locked {s.moves w .locking with queueMutex := none} := old.leaves holds rfl
      exact ⟨next.workers,next.calls,next.nested,next.fresh⟩
  | call a move => exact old.call move
  | submit a task able =>
    have user : s.inUserCode a := by
      unfold maySubmit at able
      simp only [Bool.and_eq_true] at able
      cases a with
      | other t => trivial
      | worker w =>
        have running : s.worker w = .running := of_decide_eq_true able.2
        exact running
    have next : Locked {s.answers a (.locking ⟨task,s.clock⟩) with queueMutex := s.queueMutex} :=
      old.answers user (fun absent => (by cases absent)) fun _ _ held => held
    exact ⟨next.workers,next.calls,next.nested,next.fresh⟩
  | push a entry here =>
    have next : Locked {s.answers a .notifying with queueMutex := none} := old.releases (by rw [here]; rfl) rfl
    exact ⟨next.workers,next.calls,next.nested,next.fresh⟩
  | notify a others here woken =>
    have next : Locked {s.answers a .expandThreads with queueMutex := s.queueMutex} :=
      old.answers (old.user (by simp [here,Submit.isIdle])) (fun absent => (by cases absent)) fun _ _ held => held
    have woke := next.wakes woken
    exact ⟨woke.workers,woke.calls,woke.nested,woke.fresh⟩
  | returns a back => exact old.returns back
  | expand a now here able =>
    have holds : (s.submit a).holds = true := by rw [here]; rfl
    have next : Locked {s.spawn.answers a .idle with queueMutex := none} := old.spawn.releases holds rfl
    exact ⟨next.workers,next.calls,next.nested,next.fresh⟩
  | notify_all here =>
    have next := old.wakes (Woken.all s.worker)
    exact ⟨next.workers,next.calls,next.nested,next.fresh⟩

end Locked

end NewMuduo.DynamicThreadPool
