import NewMuduo.DynamicThreadPoolMoves

namespace NewMuduo.DynamicThreadPool
variable {T Tid : Type} {s after : DynamicThreadPool T Tid} {w : Nat} {a : Agent Tid}
  {stage : Worker} {owner : Option (Agent Tid)} {active : Nat → Int}

-- Spawned and not yet out of workerLoop.
def Worker.inLoop : Worker → Bool
  | .unspawned | .left => false
  | _ => true

def Submit.busy (call : Submit T) : Bool := !call.isIdle

-- threads_ is the number of workers, has never gone below zero, and stopAll()
-- has returned only if no worker is left.
structure Balanced (s : DynamicThreadPool T Tid) : Prop where
  counted : Tally Worker.inLoop s.worker s.threads
  whole : s.wrapped = false
  alone : s.stopAll = .returned → ∀ w, (s.worker w).inLoop = false

-- threads_-- comes with a return, and threads_ has not changed since it was read.
def Paired (s : DynamicThreadPool T Tid) : Label T Tid → Prop
  | .worker w => ∀ why read, s.worker w = .writing why read → why = .exit ∧ read = s.threads
  | .construct => ∀ i read, s.constructor = .writing i read → read = s.threads
  | _ => True

def Building (s : DynamicThreadPool T Tid) : Constructor → Prop
  | .reading i => s.spawned = i ∧ i ≤ s.config.initialThreads
  | .writing i read => s.spawned = i ∧ i < s.config.initialThreads ∧ read < word
  | .finished => True

-- The order of construction, calls and destruction.
structure Lifetime (s : DynamicThreadPool T Tid) : Prop where
  accepted : s.config.accepted
  narrow : s.threads < word
  building : Building s s.constructor
  early : s.constructor = .finished ∨ ∀ a, (s.submit a).isIdle = true
  outside : Tally Submit.busy (fun t => s.submit (.other t)) s.outside
  closed : s.stopAll = .idle ∨ s.outside = 0 ∧ s.constructor = .finished

theorem incremented_lt (threads : Nat) : incremented threads < word := Nat.mod_lt _ (by decide)

theorem decremented_lt (threads : Nat) : decremented threads < word := Nat.mod_lt _ (by decide)

theorem incremented_small {threads : Nat} (small : threads + 1 < word) : incremented threads = threads + 1 := Nat.mod_eq_of_lt small

theorem decremented_some {threads : Nat} (some : 1 ≤ threads) (small : threads < word) : decremented threads = threads - 1 := by
  unfold decremented
  have same : threads + (word - 1) = threads - 1 + word := by omega
  rw [same,Nat.add_mod_right]
  exact Nat.mod_eq_of_lt (by omega)

theorem Lifetime.started (config : Config) (clock : Int) (accepted : config.accepted) :
    Lifetime (start config clock : DynamicThreadPool T Tid) :=
  ⟨accepted,Nat.two_pow_pos 64,⟨rfl,Nat.zero_le _⟩,.inr fun _ => rfl,Tally.none fun _ => rfl,.inl rfl⟩

theorem Lifetime.finished (old : Lifetime s) (busy : (s.submit a).isIdle = false) : s.constructor = .finished := by
  refine old.early.resolve_right fun idle => ?_
  rw [idle a] at busy
  cases busy

theorem CallMove.busy {call : Submit T} (move : CallMove s a call owner) : (s.submit a).isIdle = false ∧ call.isIdle = false := by
  cases move with
  | lock _ here | few here | clock here | cooled _ here | relock _ here => simp [here,Submit.isIdle]

theorem Return.busy (back : Return s a owner) : (s.submit a).isIdle = false := by
  cases back with
  | many here | cooling _ here | refuse _ here => simp [here,Submit.isIdle]

variable [DecidableEq Tid]

-- A call goes on, begins or returns.
theorem Lifetime.answers (old : Lifetime s) (a : Agent Tid) (call : Submit T) :
    Tally Submit.busy (fun t => (s.answers a call).submit (.other t))
      (s.outside + call.busy.toNat * a.outside - (s.submit a).busy.toNat * a.outside) := by
  dsimp only [DynamicThreadPool.answers]
  cases a with
  | worker w =>
    refine Tally.same ?_ fun t => congrArg Submit.busy (Function.update_of_ne (by simp) _ _)
    simpa [Agent.outside] using old.outside
  | other t =>
    have tally := old.outside.update t call
    have same : Function.update (fun t => s.submit (.other t)) t call = fun u => Function.update s.submit (.other t) call (.other u) := by
      funext u
      by_cases equal : u = t
      · rw [equal,Function.update_self,Function.update_self]
      · rw [Function.update_of_ne equal,Function.update_of_ne fun other => equal (Agent.other.inj other)]
    rw [same] at tally
    simpa [Agent.outside] using tally

theorem Lifetime.goes_on (old : Lifetime s) {call : Submit T} (busy : (s.submit a).isIdle = false) (more : call.isIdle = false) :
    Tally Submit.busy (fun t => (s.answers a call).submit (.other t)) s.outside := by
  have same : s.outside + call.busy.toNat * a.outside - (s.submit a).busy.toNat * a.outside = s.outside := by
    unfold Submit.busy
    rw [busy,more]
    exact Nat.add_sub_cancel _ _
  have tally := old.answers a call
  rw [same] at tally
  exact tally

theorem Lifetime.comes_back (old : Lifetime s) (busy : (s.submit a).isIdle = false) :
    Tally Submit.busy (fun t => (s.answers a .idle).submit (.other t)) (s.outside - a.outside) := by
  have gone : s.outside + (Submit.idle : Submit T).busy.toNat * a.outside - (s.submit a).busy.toNat * a.outside =
      s.outside - a.outside := by
    unfold Submit.busy
    rw [busy]
    simp [Submit.isIdle]
  rw [← gone]
  exact old.answers a .idle

theorem Lifetime.step {label : Label T Tid} (old : Lifetime s) (turn : Turns s label after) : Lifetime after := by
  have begun : s.constructor ≠ .finished → s.stopAll = .idle := fun unfinished => old.closed.resolve_right fun both => unfinished both.2
  cases turn with
  | none | tick _ | worker _ _ | take _ _ _ _ _ =>
    exact ⟨old.accepted,old.narrow,old.building,old.early,old.outside,old.closed⟩
  | count i here more =>
    have building := old.building
    rw [here] at building
    refine ⟨old.accepted,old.narrow,⟨building.1,more,old.narrow⟩,.inr ?_,old.outside,.inl (begun (by simp [here]))⟩
    exact old.early.resolve_left (by simp [here])
  | built i here all => exact ⟨old.accepted,old.narrow,trivial,.inl rfl,old.outside,.inl (begun (by simp [here]))⟩
  | resize i read here =>
    have building := old.building
    rw [here] at building
    refine ⟨old.accepted,incremented_lt read,⟨congrArg (· + 1) building.1,building.2.1⟩,.inr ?_,old.outside,
      .inl (begun (by simp [here]))⟩
    exact old.early.resolve_left (by simp [here])
  | decrement w read why here =>
    cases why <;> exact ⟨old.accepted,decremented_lt read,old.building,old.early,old.outside,old.closed⟩
  | call a move =>
    have built := old.finished move.busy.1
    exact ⟨old.accepted,old.narrow,old.building,.inl built,old.goes_on move.busy.1 move.busy.2,old.closed⟩
  | submit a task able =>
    unfold maySubmit at able
    simp only [Bool.and_eq_true,decide_eq_true_eq] at able
    obtain ⟨⟨built,idle⟩,user⟩ := able
    refine ⟨old.accepted,old.narrow,old.building,.inl built,?_,?_⟩
    · have more : s.outside + (Submit.locking ⟨task,s.clock⟩).busy.toNat * a.outside - (s.submit a).busy.toNat * a.outside =
          s.outside + a.outside := by
        unfold Submit.busy
        rw [idle]
        simp [Submit.isIdle]
      have tally := old.answers a (.locking ⟨task,s.clock⟩)
      rw [more] at tally
      exact tally
    · cases a with
      | worker w => exact old.closed
      | other t => exact .inl (of_decide_eq_true user)
  | push a entry here =>
    have busy : (s.submit a).isIdle = false := by rw [here]; rfl
    exact ⟨old.accepted,old.narrow,old.building,.inl (old.finished busy),old.goes_on busy rfl,old.closed⟩
  | notify a others here woken =>
    have busy : (s.submit a).isIdle = false := by rw [here]; rfl
    exact ⟨old.accepted,old.narrow,old.building,.inl (old.finished busy),old.goes_on busy rfl,old.closed⟩
  | returns a back =>
    refine ⟨old.accepted,old.narrow,old.building,.inl (old.finished back.busy),old.comes_back back.busy,old.closed.imp_right ?_⟩
    exact fun both => ⟨(congrArg (· - a.outside) both.1).trans (Nat.zero_sub _),both.2⟩
  | expand a now here able =>
    have busy : (s.submit a).isIdle = false := by rw [here]; rfl
    have built := old.finished busy
    have tally := old.comes_back busy
    dsimp only [DynamicThreadPool.answers] at tally
    constructor <;> dsimp only [DynamicThreadPool.returns,DynamicThreadPool.answers,DynamicThreadPool.expand,spawn,moves]
    · exact old.accepted
    · exact incremented_lt s.threads
    · rw [built]
      trivial
    · exact .inl built
    · exact tally
    · exact old.closed.imp_right fun both => ⟨(congrArg (· - a.outside) both.1).trans (Nat.zero_sub _),both.2⟩
  | stopAll idle built none => exact ⟨old.accepted,old.narrow,old.building,old.early,old.outside,.inr ⟨none,built⟩⟩
  | stop here _ | notify_all here | poll here _ _ =>
    exact ⟨old.accepted,old.narrow,old.building,old.early,old.outside,.inr (old.closed.resolve_left (by simp [here]))⟩

-- What holds as long as every change of threads_ goes with a start or a return.
structure Counting (s : DynamicThreadPool T Tid) : Prop where
  locked : Locked s
  lifetime : Lifetime s
  balanced : Balanced s
  reads : ∀ w why read, s.worker w = .writing why read → 1 ≤ read ∧ read ≤ s.threads

omit [DecidableEq Tid] in
theorem WorkerMove.inLoop (move : WorkerMove s w stage owner active) : (s.worker w).inLoop = true ∧ stage.inLoop = true := by
  cases move with
  | _ => simp [*,Worker.inLoop]

omit [DecidableEq Tid] in
theorem Locked.apart (locked : Locked s) (calls : (s.submit a).holds = true) (works : (s.worker w).holds = true) : False := by
  have same := Option.some.inj ((locked.calls a calls).symm.trans (locked.workers w works))
  rw [same] at calls
  rcases locked.nested w with idle | running
  · rw [Submit.idle_free idle] at calls
    cases calls
  · rw [running] at works
    cases works

omit [DecidableEq Tid] in
-- There are no more workers than threads made.
theorem Locked.few (locked : Locked s) (counted : Tally Worker.inLoop s.worker n) : n ≤ s.spawned := by
  obtain ⟨workers,card,member⟩ := counted
  have inside : workers ⊆ Finset.range s.spawned := by
    intro w here
    refine Finset.mem_range.mpr (Nat.lt_of_not_le fun beyond => ?_)
    have loops := (member w).mp here
    rw [locked.fresh w beyond] at loops
    cases loops
  have least := Finset.card_le_card inside
  rw [card,Finset.card_range] at least
  exact least

omit [DecidableEq Tid] in
theorem Locked.spawn_counted (locked : Locked s) (counted : Tally Worker.inLoop s.worker n) :
    Tally Worker.inLoop s.spawn.worker (n + 1) := by
  have next := counted.update s.spawned .starting
  rw [locked.fresh s.spawned (Nat.le_refl _)] at next
  exact next

omit [DecidableEq Tid] in
-- After stopAll() nobody is left to spawn a worker.
theorem Counting.returned (old : Counting s) (gone : s.stopAll = .returned) :
    s.constructor = .finished ∧ ∀ a, (s.submit a).isIdle = true := by
  obtain ⟨none,built⟩ := old.lifetime.closed.resolve_left (by simp [gone])
  refine ⟨built,fun a => ?_⟩
  cases a with
  | worker w =>
    refine (old.locked.nested w).resolve_right fun running => ?_
    have left := old.balanced.alone gone w
    rw [running] at left
    cases left
  | other t =>
    have idle := old.lifetime.outside.eq_zero_iff.mp none t
    unfold Submit.busy at idle
    simpa using idle

omit [DecidableEq Tid] in
-- The constructor makes no more workers than a size_t can count.
theorem Counting.room (old : Counting s) {i read : Nat} (here : s.constructor = .writing i read) : s.threads + 1 < word := by
  have building := old.lifetime.building
  rw [here] at building
  obtain ⟨made,more,_⟩ := building
  obtain ⟨_,below,most⟩ := old.lifetime.accepted
  have few := old.locked.few old.balanced.counted
  omega

theorem Counting.counted {label : Label T Tid} (old : Counting s) (paired : Paired s label) (turn : Turns s label after) :
    Tally Worker.inLoop after.worker after.threads ∧ after.wrapped = false := by
  obtain ⟨counted,whole,alone⟩ := old.balanced
  have narrow := old.lifetime.narrow
  have moved : ∀ {w stage}, (s.worker w).inLoop = true → stage.inLoop = true →
      Tally Worker.inLoop (Function.update s.worker w stage) s.threads := by
    intro w stage before now
    have next := counted.update w stage
    rw [before,now] at next
    exact next
  cases turn with
  | worker w move => exact ⟨moved move.inLoop.1 move.inLoop.2,whole⟩
  | take w entry rest here found =>
    refine ⟨moved ?_ ?_,whole⟩
    · rcases here with ⟨here,_⟩ | here <;> (rw [here]; rfl)
    · split <;> rfl
  | resize i read here =>
    have next := old.locked.spawn_counted counted
    refine ⟨?_,whole⟩
    dsimp only
    rw [paired i read here,incremented_small (old.room here)]
    exact next
  | decrement w read why here =>
    obtain ⟨rfl,rfl⟩ := paired why read here
    have one := old.reads w _ _ here
    have next := counted.update w .left
    rw [here] at next
    refine ⟨?_,?_⟩
    · dsimp only [decrement,moves]
      rw [decremented_some one.1 narrow]
      exact next
    · have some : s.threads ≠ 0 := Nat.ne_of_gt one.1
      dsimp only [decrement,moves]
      rw [whole,decide_eq_false some]
      rfl
  | notify a others here woken => exact ⟨Tally.same counted (woken.keeps Worker.inLoop rfl),whole⟩
  | notify_all here => exact ⟨Tally.same counted ((Woken.all s.worker).keeps Worker.inLoop rfl),whole⟩
  | expand a now here able =>
    obtain ⟨_,_,most⟩ := old.lifetime.accepted
    have small : s.threads + 1 < word := Nat.lt_of_le_of_lt able.1 most
    have next := old.locked.spawn_counted counted
    refine ⟨?_,whole⟩
    dsimp only [returns,answers,expand]
    rw [incremented_small small]
    exact next
  | _ => exact ⟨counted,whole⟩

theorem Counting.alone {label : Label T Tid} (old : Counting s) (turn : Turns s label after) (gone : after.stopAll = .returned) :
    ∀ w, (after.worker w).inLoop = false := by
  have alone := old.balanced.alone
  have never : ∀ {w}, s.stopAll = .returned → (s.worker w).inLoop ≠ true := by
    intro w gone loops
    rw [alone gone w] at loops
    cases loops
  have quiet : ∀ {a}, s.stopAll = .returned → (s.submit a).isIdle ≠ false := by
    intro a gone busy
    rw [(old.returned gone).2 a] at busy
    cases busy
  cases turn with
  | none | tick _ | count _ _ _ | built _ _ _ | call _ _ | submit _ _ _ | push _ _ _ | returns _ _ => exact alone gone
  | resize i read here =>
    have built := (old.returned gone).1
    rw [here] at built
    cases built
  | worker w move => exact absurd move.inLoop.1 (never gone)
  | take w entry rest here found =>
    refine absurd ?_ (never (w := w) gone)
    rcases here with ⟨here,_⟩ | here <;> (rw [here]; rfl)
  | decrement w read why here =>
    have before : s.stopAll = .returned := by cases why <;> exact gone
    exact absurd (by rw [here]; rfl) (never (w := w) before)
  | notify a others here woken => exact absurd (by rw [here]; rfl) (quiet (a := a) gone)
  | expand a now here able => exact absurd (by rw [here]; rfl) (quiet (a := a) gone)
  | stopAll _ _ _ => cases gone
  | stop _ _ => cases gone
  | notify_all _ => cases gone
  | poll here free none => exact old.balanced.counted.eq_zero_iff.mp none

theorem Counting.reads_step {label : Label T Tid} (old : Counting s) (paired : Paired s label) (turn : Turns s label after)
    (w : Nat) (why : Decrement) (read : Nat) (there : after.worker w = .writing why read) : 1 ≤ read ∧ read ≤ after.threads := by
  have reads := old.reads
  have narrow := old.lifetime.narrow
  cases turn with
  | worker v move =>
    dsimp only [moves] at there
    by_cases same : w = v
    · rw [same,Function.update_self] at there
      cases move with
      | read _ here =>
        cases there
        have one := old.balanced.counted.le v
        rw [here] at one
        exact ⟨one,Nat.le_refl _⟩
      | _ => cases there
    · rw [Function.update_of_ne same] at there
      exact reads w why read there
  | take v entry rest here found =>
    dsimp only [moves] at there
    by_cases same : w = v
    · rw [same,Function.update_self] at there
      split at there <;> cases there
    · rw [Function.update_of_ne same] at there
      exact reads w why read there
  | resize i now here =>
    have apart : w ≠ s.spawned := by
      rintro rfl
      dsimp only [spawn,moves] at there
      rw [Function.update_self] at there
      cases there
    obtain ⟨some,least⟩ := reads w why read ((Function.update_of_ne apart _ _).symm.trans there)
    refine ⟨some,?_⟩
    dsimp only
    rw [paired i now here,incremented_small (old.room here)]
    exact Nat.le_succ_of_le least
  | decrement v now cause here =>
    -- another worker that writes would hold queueMutex_ as well
    have apart : w ≠ v := by
      rintro rfl
      cases cause <;> dsimp only [decrement,moves] at there <;> rw [Function.update_self] at there <;> cases there
    have before : s.worker w = .writing why read := by
      cases cause <;> exact (Function.update_of_ne apart _ _).symm.trans there
    have one : (s.worker w).holds = true := by rw [before]; rfl
    have two : (s.worker v).holds = true := by rw [here]; rfl
    exact absurd (Holding.unique old.locked.workers worker_injective one two) apart
  | notify a others here woken =>
    rcases woken w with equal | ⟨_,woke⟩
    · exact reads w why read (equal.symm.trans there)
    · cases woke.symm.trans there
  | notify_all here =>
    rcases Woken.all s.worker w with equal | ⟨_,woke⟩
    · exact reads w why read (equal.symm.trans there)
    · cases woke.symm.trans there
  | expand a now here able =>
    have apart : w ≠ s.spawned := by
      rintro rfl
      dsimp only [returns,answers,expand,spawn,moves] at there
      rw [Function.update_self] at there
      cases there
    have before : s.worker w = .writing why read := (Function.update_of_ne apart _ _).symm.trans there
    exact (old.locked.apart (a := a) (by rw [here]; rfl) (by rw [before]; rfl)).elim
  | _ => exact reads w why read there

theorem Counting.step {label : Label T Tid} (old : Counting s) (paired : Paired s label)
    (taken : machine.next s label = some after) : Counting after := by
  have turn : Turns s label after := step_turns taken
  obtain ⟨counted,whole⟩ := old.counted paired turn
  exact ⟨old.locked.step turn,old.lifetime.step turn,⟨counted,whole,old.alone turn⟩,old.reads_step paired turn⟩

-- A write of threads_ that misses the condition leaves another number behind.
theorem Counting.missed {label : Label T Tid} (old : Counting s) (missed : ¬Paired s label)
    (taken : machine.next s label = some after) : ¬Balanced after := by
  intro balanced
  have narrow := old.lifetime.narrow
  cases label with
  | worker w =>
    simp only [Paired] at missed
    push Not at missed
    obtain ⟨why,read,here,apart⟩ := missed
    have equal : s.decrement w read why = after := by
      simpa [machine,DynamicThreadPool.step,stepWorker,here] using taken
    obtain ⟨some,most⟩ := old.reads w why read here
    have small : read < word := Nat.lt_of_le_of_lt most narrow
    have counted := balanced.counted
    cases why with
    | exit =>
      have next := old.balanced.counted.update w .left
      rw [here] at next
      rw [← equal] at counted
      have same := Tally.unique counted next
      dsimp only [decrement,moves] at same
      rw [decremented_some some small] at same
      simp only [Worker.inLoop,Bool.toNat_true,Bool.toNat_false] at same
      exact apart rfl (by omega)
    | shrink now =>
      have next := old.balanced.counted.update w .locking
      rw [here] at next
      rw [← equal] at counted
      have same := Tally.unique counted next
      dsimp only [decrement,moves] at same
      rw [decremented_some some small] at same
      simp only [Worker.inLoop,Bool.toNat_true] at same
      omega
  | construct =>
    simp only [Paired] at missed
    push Not at missed
    obtain ⟨i,read,here,apart⟩ := missed
    have equal : {s.spawn with threads := incremented read,constructor := .reading (i + 1)} = after := by
      simpa [machine,DynamicThreadPool.step,construct,here] using taken
    have building := old.lifetime.building
    rw [here] at building
    obtain ⟨_,_,small⟩ := building
    have room := old.room here
    have counted := balanced.counted
    rw [← equal] at counted
    have same := Tally.unique counted (old.locked.spawn_counted old.balanced.counted)
    dsimp only at same
    unfold incremented word at *
    exact apart (by omega)
  | _ => exact missed trivial

omit [DecidableEq Tid] in
theorem Counting.started (config : Config) (clock : Int) (accepted : config.accepted) :
    Counting (start config clock : DynamicThreadPool T Tid) :=
  ⟨.started config clock,.started config clock accepted,⟨Tally.none fun _ => rfl,rfl,fun absent => (by cases absent)⟩,
    fun _ _ _ absent => (by cases absent)⟩

theorem balanced_iff_paired {config : Config} {clock : Int} {labels : List (Label T Tid)} {final : DynamicThreadPool T Tid}
    (accepted : config.accepted) (ran : machine.run (start config clock) labels = some final) :
    machine.Throughout Balanced (start config clock) labels ↔ machine.Meets Paired (start config clock) labels := by
  have kept : ∀ s (label : Label T Tid) after, Counting s → Paired s label → machine.next s label = some after → Counting after :=
    fun _ _ _ old paired taken => old.step paired taken
  have broken : ∀ s (label : Label T Tid) after, Counting s → ¬Paired s label → machine.next s label = some after →
      ¬Balanced after := fun _ _ _ old missed taken => old.missed missed taken
  exact Machine.throughout_iff_meets (fun _ old => old.balanced) kept broken (.started config clock accepted) ran

-- A pool of one worker, which may leave.
def oneWorker : Config := {minThreads := 0,maxThreads := 1,initialThreads := 1}

theorem oneWorker_balanced : machine.Throughout Balanced (start oneWorker 0 : DynamicThreadPool Nat Unit)
    (List.replicate 3 .construct ++ List.replicate 3 (.worker 0)) := by
  have accepted : oneWorker.accepted := ⟨Nat.zero_le 1,Nat.le_refl 1,Nat.one_lt_two_pow (by decide)⟩
  refine (balanced_iff_paired accepted rfl).mpr ?_
  refine .cons (fun _ _ absent => (by cases absent)) rfl ?_
  refine .cons (fun _ _ here => (by cases here; rfl)) rfl ?_
  iterate 4
    refine .cons (fun _ _ absent => (by cases absent)) rfl ?_
  trivial

-- The worker waits a little less than idleTimeout, and the limit passes before
-- tryShrink looks; then stopAll() finds no thread.
def shrinkThenStop : List (Label Nat Unit) :=
  List.replicate 3 .construct ++ List.replicate 3 (.worker 0) ++ [.tick 59999000000,.wake 0,.worker 0,.worker 0,.tick 1000000] ++
    List.replicate 7 (.worker 0) ++ List.replicate 4 .stopAll

-- What the worker does to the pool afterwards.
def exitLater : List (Label Nat Unit) := [.worker 0,.worker 0,.wake 0] ++ List.replicate 4 (.worker 0)

theorem stopped_before_worker : ∃ s last, machine.run (start oneWorker 0) shrinkThenStop = some s ∧ s.stopAll = .returned ∧
    s.threads = 0 ∧ (s.worker 0).inLoop = true ∧ machine.run s exitLater = some last ∧ last.threads = 2 ^ 64 - 1 ∧
    last.wrapped = true := by
  have first : ((machine.run (start oneWorker 0) shrinkThenStop).map fun s => (s.stopAll,s.threads,(s.worker 0).inLoop)) =
      some (.returned,0,true) := by
    decide +kernel
  have whole : ((machine.run (start oneWorker 0) (shrinkThenStop ++ exitLater)).map fun s => (s.threads,s.wrapped)) =
      some (2 ^ 64 - 1,true) := by
    decide +kernel
  obtain ⟨s,ran,here⟩ := Option.map_eq_some_iff.mp first
  obtain ⟨last,rest,there⟩ := Option.map_eq_some_iff.mp whole
  rw [Machine.run_append ran] at rest
  simp only [Prod.mk.injEq] at here there
  exact ⟨s,last,ran,here.1,here.2.1,here.2.2,rest,there⟩

end NewMuduo.DynamicThreadPool
