import NewMuduo.TimerMemory

namespace NewMuduo
namespace TimerQueue
variable {s : TimerQueue} {t : Timer} {timer q : Nat} {label : Label}

-- The Timer created with q has had its last run.
def Ending (s : TimerQueue) (q : Nat) : Prop :=
  ∀ timer t, s.heap timer = some t → t.sequence = q →
    (⟨t.expiration,timer⟩ : Entry) ∈ s.done ∧ (t.repeats = false ∨ (timer,q) ∈ s.cancels)

namespace Accounted

theorem ending_cancel (old : Accounted s) (ending : s.Ending q) (other r : Nat) : (s.apply (.cancel other r)).Ending q := by
  obtain ⟨batch,_,_,_,takes⟩ := (old.recorded other r).cancelInLoop_takes other r
  have cancels : (s.apply (.cancel other r)).cancels = s.cancels ++ [(other,r)] := by
    change (TimerQueue.cancelInLoop {s with cancels := s.cancels ++ [(other,r)]} other r).cancels = _
    rcases (old.recorded other r).cancelInLoop other r with ⟨_,_,_,_,after⟩ | ⟨_,after⟩ <;> rw [after]
  intro timer t found same
  obtain ⟨ran,last⟩ := ending timer t (takes timer t found) same
  refine ⟨?_,?_⟩
  · unfold done apply
    rw [batch]
    exact ran
  · rw [cancels]
    exact last.imp_right (List.mem_append_left _)

theorem ending_run (old : Accounted s) (ending : s.Ending q) (able : s.allowed .run = true) :
    (s.apply .run).Ending q ∧ ∃ started, (s.apply .run).runs = s.runs ++ started ∧ q ∉ started := by
  obtain ⟨done,cur,rest,running,t,here,found,ran⟩ := old.run_some able
  have expired : s.expired = done ++ cur :: rest := by
    unfold expired
    rw [here]
    rfl
  have finished : s.done = done := by
    unfold TimerQueue.done
    rw [here]
    rfl
  rw [ran]
  refine ⟨?_,[t.sequence],rfl,?_⟩
  · intro timer u there same
    obtain ⟨before,last⟩ := ending timer u there same
    rw [finished] at before
    exact ⟨List.mem_append_left _ before,last⟩
  · intro member
    obtain ⟨before,_⟩ := ending cur.timer t found (List.mem_singleton.mp member).symm
    have inside : cur ∈ s.expired := by
      rw [expired]
      exact List.mem_append_right _ List.mem_cons_self
    rw [old.tracked.sound.unique (.inr inside) found,finished] at before
    have once := old.tracked.sound.once
    rw [expired] at once
    exact (List.nodup_append.mp once).2.2 cur before cur List.mem_cons_self rfl

theorem ending_reset (old : Accounted s) (ending : s.Ending q) (able : s.allowed (.reset clock) = true) :
    (s.apply (.reset clock)).Ending q := by
  intro timer t found same
  exfalso
  rcases old.heap_from able found with ⟨u,before,equal⟩ | ⟨_,absent⟩
  · obtain ⟨ran,last⟩ := ending timer u before (equal.trans same)
    have left := (old.reset_heap able (inside ran) before).symm.trans found
    rw [if_neg] at left
    · cases left
    · intro goes_on
      rcases last with once | cancelled
      · rw [once] at goes_on
        cases goes_on.1
      · rw [equal.trans same] at goes_on
        exact goes_on.2 cancelled
  · cases absent

theorem ending_step (old : Accounted s) (ending : s.Ending q) (able : s.allowed label = true)
    (apart : q ∉ created label) :
    (s.apply label).Ending q ∧ ∃ started, (s.apply label).runs = s.runs ++ started ∧ q ∉ started := by
  by_cases runs : label = .run
  · rw [runs] at able ⊢
    exact old.ending_run ending able
  refine ⟨?_,[],((old.records able).2.1.resolve_left runs).trans (List.append_nil _).symm,List.not_mem_nil⟩
  cases label with
  | add other t clock =>
    obtain ⟨timerfd,after⟩ := add_some s other t clock
    rw [after]
    intro timer u found same
    rcases Ledger.update_some found with ⟨_,rfl⟩ | ⟨_,before⟩
    · exact absurd (List.mem_singleton.mpr same.symm) apart
    · exact ending timer u before same
  | cancel other r => exact old.ending_cancel ending other r
  | handleRead now =>
    have idle : s.batch = none := Option.isNone_iff_eq_none.mp able
    intro timer u found same
    rw [handleRead_heap] at found
    obtain ⟨ran,_⟩ := ending timer u found same
    unfold done at ran
    rw [idle] at ran
    cases ran
  | run => exact absurd rfl runs
  | returns =>
    intro timer u found same
    obtain ⟨ran,last⟩ := ending timer u found same
    refine ⟨?_,last⟩
    unfold done apply at *
    cases here : s.batch with
    | none =>
      rw [here] at ran
      cases ran
    | some b =>
      rw [here] at ran
      exact ran
  | reset clock => exact old.ending_reset ending able
  | expire => exact ending

end Accounted
end TimerQueue

namespace TimerThreads
variable {Tid : Type} {s after last : TimerThreads Tid} {u : Timer} {timer q : Nat} {id : TimerId}

-- Where cancelInLoop does not look for a Timer: its addTimerInLoop is queued,
-- or it is in the batch of handleRead and has still to run.
def waiting (s : TimerThreads Tid) (q : Nat) : Bool :=
  s.pendingFunctors.any (fun timer => (s.made timer).any (·.sequence = q)) ||
    s.queue.batch.any fun b => b.left.any fun e => (s.queue.heap e.timer).any (·.sequence = q)

theorem waiting_iff : s.waiting q = true ↔
    (∃ timer ∈ s.pendingFunctors, ∃ u, s.made timer = some u ∧ u.sequence = q) ∨
      ∃ b, s.queue.batch = some b ∧ ∃ e ∈ b.left, ∃ u, s.queue.heap e.timer = some u ∧ u.sequence = q := by
  simp [waiting,Option.any_eq_true]

structure Over (s : TimerThreads Tid) (q : Nat) : Prop where
  given : q < s.numCreated
  unmade : ∀ timer u, s.made timer = some u → u.sequence ≠ q
  ending : s.queue.Ending q

variable [DecidableEq Tid] {label : Label Tid}

theorem Over.step (old : Over s q) (valid : Sharing s) (taken : s.step label = some after) :
    Over after q ∧ ∃ started, after.queue.runs = s.queue.runs ++ started ∧ q ∉ started := by
  have given := Nat.lt_of_lt_of_le old.given (created_grows taken)
  have unmade : ∀ timer u, after.made timer = some u → u.sequence ≠ q := by
    intro timer u found same
    cases label with
    | newTimer t other made =>
      simp only [step] at taken
      split at taken <;> cases taken
      rename_i able
      rcases Ledger.update_some found with ⟨_,rfl⟩ | ⟨_,before⟩
      · exact absurd old.given (by omega)
      · exact old.unmade timer u before same
    | queueInLoop t | timerId t garbage =>
      simp only [step] at taken
      split at taken <;> cases taken
      exact old.unmade timer u found same
    | addTimerInLoop clock =>
      simp only [step] at taken
      split at taken <;> cases taken
      rename_i other rest idle here
      obtain ⟨v,_,_,next⟩ := valid.adds idle here clock
      rw [next] at found
      exact old.unmade timer u (Ledger.update_none found).2 same
    | loop label =>
      simp only [step] at taken
      split at taken <;> cases taken
      rw [(s.loop_queue label).2.1] at found
      exact old.unmade timer u found same
  have still : after.queue = s.queue → Over after q ∧ ∃ started, after.queue.runs = s.queue.runs ++ started ∧ q ∉ started := by
    intro same
    exact ⟨⟨given,unmade,same ▸ old.ending⟩,[],same ▸ (List.append_nil _).symm,List.not_mem_nil⟩
  cases label with
  | newTimer t other made | queueInLoop t | timerId t garbage =>
    simp only [TimerThreads.step] at taken
    split at taken <;> cases taken
    exact still rfl
  | addTimerInLoop clock =>
    simp only [TimerThreads.step] at taken
    split at taken <;> cases taken
    rename_i other rest idle here
    obtain ⟨v,found,able,next⟩ := valid.adds idle here clock
    have apart : q ∉ TimerQueue.created (.add other v clock) := fun member =>
      old.unmade other v found (List.mem_singleton.mp member).symm
    obtain ⟨ending,started⟩ := valid.placed.queue.ending_step old.ending able apart
    rw [next] at given unmade ⊢
    exact ⟨⟨given,unmade,ending⟩,started⟩
  | loop label =>
    simp only [TimerThreads.step] at taken
    split at taken <;> cases taken
    rename_i able
    have apart : q ∉ TimerQueue.created label := by
      cases label with
      | add other v clock =>
        intro member
        have numbered := able.2.2
        exact absurd old.given (by rw [List.mem_singleton.mp member,numbered]; exact Nat.lt_irrefl _)
      | _ => exact List.not_mem_nil
    obtain ⟨ending,started⟩ := valid.placed.queue.ending_step old.ending able.1 apart
    rw [← (s.loop_queue label).1] at ending started
    exact ⟨⟨given,unmade,ending⟩,started⟩

theorem Over.run {labels : List (Label Tid)} (old : Over s q) (valid : Sharing s) (ran : machine.run s labels = some last) :
    ∃ started, last.queue.runs = s.queue.runs ++ started ∧ q ∉ started := by
  induction labels generalizing s with
  | nil =>
    cases Option.some.inj ran
    exact ⟨[],(List.append_nil _).symm,List.not_mem_nil⟩
  | cons label rest ih =>
    obtain ⟨middle,taken,ran⟩ := Machine.run_cons_parts ran
    obtain ⟨next,first,grown,apart⟩ := old.step valid taken
    obtain ⟨second,grown_rest,apart_rest⟩ := ih next (valid.step taken) ran
    refine ⟨first ++ second,?_,fun member => (List.mem_append.mp member).elim apart apart_rest⟩
    rw [grown_rest,grown,List.append_assoc]

-- The cancel of an id whose Timer is not waiting leaves that one no run.
theorem Sharing.cancelled (old : Sharing s) (returned : (id,q) ∈ s.returned) (settled : s.waiting q = false)
    (taken : s.step (.loop (.cancel id.timer id.sequence)) = some after) : Over after q := by
  obtain ⟨names,finished⟩ := old.ids id q returned
  have given := Nat.lt_of_lt_of_le names.given (created_grows taken)
  simp only [TimerThreads.step] at taken
  split at taken <;> cases taken
  have still : ¬s.waiting q = true := by
    rw [settled]
    exact Bool.false_ne_true
  obtain ⟨unqueued,passed⟩ := not_or.mp (mt waiting_iff.mpr still)
  refine ⟨given,?_,?_⟩
  · intro timer u found same
    rcases old.queued timer u found with member | ⟨t,queueing⟩
    · exact unqueued ⟨timer,member,u,found,same⟩
    · refine finished t timer ?_
      rw [queueing,← same]
      rfl
  · intro timer u found same
    have accounted := old.placed.queue
    have sound := accounted.recorded id.timer id.sequence
    obtain ⟨batch,_,_,_,takes⟩ := sound.cancelInLoop_takes id.timer id.sequence
    have before := takes timer u found
    subst same
    cases names.there timer u (old.placed.memory_queue before) rfl
    have inside : (⟨u.expiration,timer⟩ : Entry) ∈ s.queue.expired := by
      by_contra outside
      have gone := sound.cancel_current before outside
      cases gone.symm.trans found
    have ran : (⟨u.expiration,timer⟩ : Entry) ∈ s.queue.done := by
      unfold TimerQueue.expired at inside
      unfold TimerQueue.done
      cases here : s.queue.batch with
      | none =>
        rw [here] at inside
        cases inside
      | some b =>
        rw [here] at inside
        refine (List.mem_append.mp inside).resolve_right fun left => ?_
        exact passed ⟨b,here,_,left,u,before,rfl⟩
    refine ⟨?_,.inr ?_⟩
    · unfold TimerQueue.done TimerThreads.loop TimerQueue.apply
      dsimp only
      rw [batch]
      exact ran
    · change (timer,u.sequence) ∈ (TimerQueue.cancelInLoop {s.queue with
        cancels := s.queue.cancels ++ [(timer,u.sequence)]} timer u.sequence).cancels
      rcases sound.cancelInLoop timer u.sequence with ⟨_,_,_,_,after⟩ | ⟨_,after⟩ <;>
        · rw [after]
          exact List.mem_append_right _ List.mem_cons_self

-- Some continuation runs the callback of the Timer created with q.
def Starts (s : TimerThreads Tid) (q : Nat) : Prop :=
  ∃ labels last started, machine.run s labels = some last ∧ last.queue.runs = s.queue.runs ++ started ∧ q ∈ started

theorem Sharing.runs_grow (old : Sharing s) (taken : s.step label = some after) :
    ∃ started, after.queue.runs = s.queue.runs ++ started := by
  have grown : ∀ {label}, s.queue.allowed label = true → ∃ started, (s.queue.apply label).runs = s.queue.runs ++ started := by
    intro label able
    rcases (old.placed.queue.records able).2.1 with rfl | same
    · obtain ⟨_,_,_,_,t,_,_,ran⟩ := old.placed.queue.run_some able
      rw [ran]
      exact ⟨[t.sequence],rfl⟩
    · exact ⟨[],same.trans (List.append_nil _).symm⟩
  cases label with
  | newTimer t timer u | queueInLoop t | timerId t garbage =>
    simp only [TimerThreads.step] at taken
    split at taken <;> cases taken
    exact ⟨[],(List.append_nil _).symm⟩
  | addTimerInLoop clock =>
    simp only [TimerThreads.step] at taken
    split at taken <;> cases taken
    rename_i timer rest idle here
    obtain ⟨u,_,able,next⟩ := old.adds idle here clock
    rw [next]
    exact grown able
  | loop label =>
    simp only [TimerThreads.step] at taken
    split at taken <;> cases taken
    rename_i able
    rw [(s.loop_queue label).1]
    exact grown able.1

theorem Starts.back (later : Starts after q) (valid : Sharing s) (taken : s.step label = some after) : Starts s q := by
  obtain ⟨labels,last,started,ran,grown,member⟩ := later
  obtain ⟨first,grown_first⟩ := valid.runs_grow taken
  refine ⟨label :: labels,last,first ++ started,(Machine.run_cons taken).trans ran,?_,List.mem_append_right _ member⟩
  rw [grown,grown_first,List.append_assoc]

theorem step_loop {label : TimerQueue.Label} (able : s.queue.allowed label = true) (admitted : s.loopAllowed label) :
    s.step (.loop label) = some (s.loop label) := by
  simp only [TimerThreads.step]
  exact if_pos ⟨able,admitted⟩

-- The end of the callback that is running, if one is.
theorem Starts.returned {b : Batch} (valid : Sharing s) (here : s.queue.batch = some b)
    (next : ∀ after : TimerThreads Tid, Sharing after → after.queue = {s.queue with batch := some {b with running := false}} →
      after.made = s.made → after.pendingFunctors = s.pendingFunctors → Starts after q) : Starts s q := by
  cases running : b.running with
  | true =>
    have able : s.queue.allowed .returns = true := by
      unfold TimerQueue.allowed
      rw [here]
      exact running
    have taken := step_loop able trivial
    refine Starts.back (next _ (valid.step taken) ?_ rfl rfl) valid taken
    change s.queue.apply .returns = _
    unfold TimerQueue.apply
    rw [here]
    rfl
  | false =>
    refine next s valid ?_ rfl rfl
    cases b
    dsimp only at running
    rw [← running,← here]

-- The turn of the first Timer that has still to run.
theorem Starts.turn {cur : Entry} {done rest : List Entry} (valid : Sharing s)
    (here : s.queue.batch = some ⟨done,cur :: rest,false⟩)
    (next : ∀ after : TimerThreads Tid, Sharing after → after.queue.heap = s.queue.heap → after.queue.batch = some ⟨done ++ [cur],rest,true⟩ →
      after.made = s.made → after.pendingFunctors = s.pendingFunctors → Starts after q) : Starts s q := by
  have able : s.queue.allowed .run = true := by
    unfold TimerQueue.allowed
    rw [here]
    rfl
  have taken := step_loop able trivial
  refine Starts.back (next _ (valid.step taken) TimerQueue.run_heap ?_ rfl rfl) valid taken
  obtain ⟨_,_,_,_,_,same,_,ran⟩ := valid.placed.queue.run_some able
  cases here.symm.trans same
  change (s.queue.apply .run).batch = _
  rw [ran]

theorem Starts.now {cur : Entry} {done rest : List Entry} (valid : Sharing s)
    (here : s.queue.batch = some ⟨done,cur :: rest,false⟩) (found : s.queue.heap cur.timer = some u) :
    Starts s u.sequence := by
  have able : s.queue.allowed .run = true := by
    unfold TimerQueue.allowed
    rw [here]
    rfl
  have taken := step_loop able trivial
  obtain ⟨_,_,_,_,t,same,there,ran⟩ := valid.placed.queue.run_some able
  cases here.symm.trans same
  cases found.symm.trans there
  refine ⟨[.loop .run],_,[u.sequence],Machine.run_cons taken,?_,List.mem_cons_self⟩
  change (s.queue.apply .run).runs = _
  rw [ran]

-- handleRead goes on until it comes to the Timer.
theorem Starts.left {b : Batch} {e : Entry} (valid : Sharing s) (here : s.queue.batch = some b) (member : e ∈ b.left)
    (found : s.queue.heap e.timer = some u) : Starts s u.sequence := by
  obtain ⟨done,left,running⟩ := b
  induction left generalizing s done running with
  | nil => cases member
  | cons cur rest ih =>
    refine Starts.returned valid here ?_
    intro idle valid queue _ _
    have batch : idle.queue.batch = some ⟨done,cur :: rest,false⟩ := by rw [queue]
    have there : idle.queue.heap e.timer = some u := by
      rw [queue]
      exact found
    rcases List.mem_cons.mp member with rfl | later
    · exact Starts.now valid batch there
    · refine Starts.turn valid batch ?_
      intro after valid heap batch _ _
      exact ih valid (heap ▸ there) _ _ batch later

-- handleRead goes on to its end.
theorem Starts.finished (valid : Sharing s)
    (next : ∀ after : TimerThreads Tid, Sharing after → after.queue.batch = none → after.made = s.made →
      after.pendingFunctors = s.pendingFunctors → Starts after q) : Starts s q := by
  cases here : s.queue.batch with
  | none => exact next s valid here rfl rfl
  | some b =>
    obtain ⟨done,left,running⟩ := b
    induction left generalizing s done running with
    | nil =>
      refine Starts.returned valid here ?_
      intro idle valid queue made pending
      have able : idle.queue.allowed (.reset 0) = true := by
        unfold TimerQueue.allowed
        rw [queue]
        rfl
      have taken := step_loop able trivial
      have calm := valid.step taken
      refine Starts.back (next _ calm ?_ made pending) valid taken
      have emptied := valid.placed.queue.emptied able
      obtain ⟨timerfd,after⟩ := (valid.placed.queue.settled able).sound.rearm 0
      have reset : idle.queue.apply (.reset 0) = _ := after
      obtain ⟨_,batch,_⟩ := TimerQueue.resets_frame idle.queue.expired {idle.queue with callingExpiredTimers := false,batch := none}
      change (idle.queue.apply (.reset 0)).batch = none
      rw [reset]
      exact batch
    | cons cur rest ih =>
      refine Starts.returned valid here ?_
      intro idle valid queue made pending
      have batch : idle.queue.batch = some ⟨done,cur :: rest,false⟩ := by rw [queue]
      refine Starts.turn valid batch ?_
      intro after valid _ batch made_after pending_after
      refine ih valid ?_ _ _ batch
      intro last valid none made_last pending_last
      exact next last valid none (made_last.trans (made_after.trans made)) (pending_last.trans (pending_after.trans pending))

-- A Timer in the sets runs in a handleRead that is late enough.
theorem Starts.expires (valid : Sharing s) (idle : s.queue.batch = none) (found : s.queue.heap timer = some u) :
    Starts s u.sequence := by
  have able : s.queue.allowed (.handleRead (u.expiration + 1)) = true := by
    unfold TimerQueue.allowed
    rw [idle]
    rfl
  have taken := step_loop able trivial
  refine Starts.back ?_ valid taken
  have sound := valid.placed.queue.tracked.sound
  have listed : (⟨u.expiration,timer⟩ : Entry) ∈ s.queue.timers := by
    refine ((sound.homes ⟨u.expiration,timer⟩).mpr ⟨u,found,rfl⟩).resolve_right fun inside => ?_
    unfold TimerQueue.expired at inside
    rw [idle] at inside
    cases inside
  refine Starts.left (b := ⟨[],s.queue.timers.below ⟨u.expiration + 1,UINTPTR_MAX⟩,false⟩) (e := ⟨u.expiration,timer⟩)
    (valid.step taken) rfl (OrderedSet.mem_below.mpr ⟨listed,?_⟩) ?_
  · exact Prod.Lex.left _ _ (Int.lt_succ _)
  · change (s.queue.apply (.handleRead (u.expiration + 1))).heap timer = some u
    rw [TimerQueue.handleRead_heap]
    exact found

-- The functors run until addTimerInLoop of the Timer has.
theorem Starts.queued (valid : Sharing s) (idle : s.queue.batch = none) (member : timer ∈ s.pendingFunctors)
    (found : s.made timer = some u) : Starts s u.sequence := by
  induction here : s.pendingFunctors generalizing s with
  | nil =>
    rw [here] at member
    cases member
  | cons first rest ih =>
    obtain ⟨v,there,_,next⟩ := valid.adds idle here 0
    obtain ⟨timerfd,added⟩ := TimerQueue.add_some s.queue first v 0
    have taken : s.step (.addTimerInLoop 0) = some {s with
        made := Function.update s.made first none
        pendingFunctors := rest
        queue := s.queue.apply (.add first v 0)} := by
      simp only [TimerThreads.step,idle,here,next]
    have batch : (s.queue.apply (.add first v 0)).batch = none := by
      rw [added]
      exact idle
    refine Starts.back ?_ valid taken
    by_cases same : timer = first
    · rw [same,there] at found
      cases found
      have listed : (s.queue.apply (.add first u 0)).heap first = some u := by
        rw [added]
        exact Function.update_self _ _ _
      exact Starts.expires (valid.step taken) batch listed
    · rw [here] at member
      exact ih (valid.step taken) batch ((List.mem_cons.mp member).resolve_left same)
        ((Function.update_of_ne same _ _).trans found) rfl

theorem Starts.waiting (valid : Sharing s) (waits : s.waiting q = true) : Starts s q := by
  rcases waiting_iff.mp waits with ⟨timer,member,u,found,rfl⟩ | ⟨b,here,e,member,u,found,rfl⟩
  · refine Starts.finished valid ?_
    intro after valid idle made pending
    exact Starts.queued valid idle (pending ▸ member) (made ▸ found)
  · exact Starts.left valid here member found

-- cancelInLoop takes nothing out of what waits.
theorem Sharing.still_waiting (old : Sharing s) (waits : s.waiting q = true)
    (taken : s.step (.loop (.cancel timer r)) = some after) : after.waiting q = true := by
  simp only [TimerThreads.step] at taken
  split at taken <;> cases taken
  have sound := old.placed.queue.recorded timer r
  obtain ⟨batch,_⟩ := sound.cancelInLoop_takes timer r
  refine waiting_iff.mpr ((waiting_iff.mp waits).imp_right fun passed => ?_)
  obtain ⟨b,here,e,left,u,found,same⟩ := passed
  have inside : e ∈ s.queue.expired := by
    unfold TimerQueue.expired
    rw [here]
    exact List.mem_append_right _ left
  refine ⟨b,batch.trans here,e,left,u,?_,same⟩
  change (TimerQueue.cancelInLoop {s.queue with cancels := s.queue.cancels ++ [(timer,r)]} timer r).heap e.timer = some u
  rcases sound.cancelInLoop timer r with ⟨v,there,_,active,after⟩ | ⟨_,after⟩ <;> rw [after]
  · refine (Function.update_of_ne ?_ _ _).trans found
    rintro rfl
    obtain ⟨w,again,_,listed⟩ := (sound.active _ _).mp active
    rw [sound.unique (.inr inside) again] at listed
    exact listed.elim (sound.apart e inside) List.not_mem_nil
  · exact found

-- A callback cancels the second Timer of a batch of two.
def sameBatch : List (Label Tid) :=
  [.loop (.add 1 ⟨100,0,false,0⟩ 0),.loop (.add 2 ⟨110,0,false,1⟩ 0),.loop (.handleRead 120),.loop .run]

end TimerThreads
end NewMuduo
