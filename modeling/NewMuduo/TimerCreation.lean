import NewMuduo.TimerMemory

namespace NewMuduo.TimerThreads
variable {Tid : Type} {s after last : TimerThreads Tid} {u : Timer} {timer q : Nat}

-- addTimer can read the sequence number of its Timer.
def Alive (s : TimerThreads Tid) : Prop :=
  ∀ t timer q, s.threads t = .building timer q → ∃ u, s.memory timer = some u ∧ u.sequence = q

-- The one-shot Timers of the batch that reset deletes are not those that
-- another thread has still to build a TimerId for.
def InTime (s : TimerThreads Tid) : Label Tid → Prop
  | .loop (.reset _) => ∀ t timer q, s.threads t = .building timer q → ∀ e ∈ s.queue.expired, e.timer = timer →
    ∀ u, s.queue.heap timer = some u → u.repeats = true
  | _ => True

-- Ids are those of the Timers they were returned for.
structure Genuine (s : TimerThreads Tid) : Prop where
  sharing : Sharing s
  alive : Alive s
  ids : ∀ id q, (id,q) ∈ s.returned → id.sequence = q

namespace Genuine

theorem uncalled (old : Genuine s) (returned : ⟨timer,q⟩ ∈ s.returned.map (·.1)) (t : Tid) :
    (s.threads t).call ≠ some (timer,q) := by
  obtain ⟨⟨id,r⟩,member,same⟩ := List.mem_map.mp returned
  dsimp only at same
  have genuine := old.ids id r member
  rw [same] at genuine
  rw [show q = r from genuine]
  exact (old.sharing.ids id r member).2 t timer

-- The Timer that a thread has still to read stays through a step of the loop.
theorem loop_keeps {label : TimerQueue.Label} (old : Genuine s) (able : s.queue.allowed label = true)
    (admitted : s.loopAllowed label) (met : s.InTime (.loop label)) (building : s.threads t = .building timer q)
    (found : s.queue.heap timer = some u) (same : u.sequence = q) :
    ∃ v, (s.queue.apply label).heap timer = some v ∧ v.sequence = q := by
  have accounted := old.sharing.placed.queue
  have mine : (s.threads t).call = some (timer,u.sequence) := by
    rw [building,same]
    rfl
  cases here : (s.queue.apply label).heap timer with
  | some v =>
    refine ⟨v,rfl,?_⟩
    rcases accounted.heap_from able here with ⟨w,before,equal⟩ | ⟨clock,rfl⟩
    · cases found.symm.trans before
      exact equal.symm.trans same
    · simp [TimerQueue.allowed,found] at able
  | none =>
    exfalso
    rcases accounted.goes able found here with rfl | ⟨clock,rfl,inside,_,once | cancelled⟩
    · exact old.uncalled admitted t mine
    · have repeating := met t timer q building _ inside rfl u found
      rw [once] at repeating
      cases repeating
    · exact old.uncalled (old.sharing.cancels timer u.sequence cancelled) t mine

variable [DecidableEq Tid] {label : Label Tid}

theorem newTimer (old : Genuine s) (taken : s.step (.newTimer t timer u) = some after) : Genuine after := by
  have sharing := old.sharing.step taken
  simp only [TimerThreads.step] at taken
  split at taken <;> cases taken
  rename_i able
  refine ⟨sharing,?_,old.ids⟩
  intro one a q here
  rcases update_parts here with ⟨_,absent⟩ | ⟨_,building⟩
  · cases absent
  · obtain ⟨v,found,same⟩ := old.alive one a q building
    refine ⟨v,?_,same⟩
    have away : a ≠ timer := by
      rintro rfl
      cases able.2.1.symm.trans found
    unfold memory
    dsimp only
    rw [Function.update_of_ne away]
    exact found

theorem queueInLoop (old : Genuine s) (taken : s.step (.queueInLoop t) = some after) : Genuine after := by
  have sharing := old.sharing.step taken
  simp only [TimerThreads.step] at taken
  split at taken <;> cases taken
  rename_i timer q queueing
  refine ⟨sharing,?_,old.ids⟩
  intro one a r here
  rcases update_parts here with ⟨_,same⟩ | ⟨_,building⟩
  · cases same
    obtain ⟨_,v,found,same⟩ := old.sharing.queueing t timer q queueing
    exact ⟨v,memory_made found,same⟩
  · exact old.alive one a r building

theorem timerId (old : Genuine s) (taken : s.step (.timerId t garbage) = some after) : Genuine after := by
  have sharing := old.sharing.step taken
  simp only [TimerThreads.step] at taken
  split at taken <;> cases taken
  rename_i timer q building
  refine ⟨sharing,?_,?_⟩
  · intro one a r here
    rcases update_parts here with ⟨_,absent⟩ | ⟨_,building⟩
    · cases absent
    · exact old.alive one a r building
  · intro id r member
    rcases List.mem_append.mp member with before | last
    · exact old.ids id r before
    · cases List.mem_singleton.mp last
      obtain ⟨v,found,same⟩ := old.alive t timer q building
      unfold sequence
      rw [found]
      exact same

theorem addTimerInLoop (old : Genuine s) (taken : s.step (.addTimerInLoop clock) = some after) : Genuine after := by
  have sharing := old.sharing.step taken
  simp only [TimerThreads.step] at taken
  split at taken <;> cases taken
  rename_i timer rest idle here
  obtain ⟨u,made,able,next⟩ := old.sharing.adds idle here clock
  rw [next] at sharing ⊢
  obtain ⟨timerfd,added⟩ := TimerQueue.add_some s.queue timer u clock
  refine ⟨sharing,?_,old.ids⟩
  intro one a q building
  obtain ⟨v,found,same⟩ := old.alive one a q building
  refine ⟨v,?_,same⟩
  rcases memory_cases found with waiting | ⟨unmade,listed⟩
  · by_cases equal : a = timer
    · rw [equal] at waiting ⊢
      cases made.symm.trans waiting
      refine sharing.placed.memory_queue ?_
      dsimp only
      rw [added]
      exact Function.update_self _ _ _
    · exact memory_made ((Function.update_of_ne equal _ _).trans waiting)
  · refine sharing.placed.memory_queue ?_
    have away : a ≠ timer := by
      rintro rfl
      cases unmade.symm.trans made
    dsimp only
    rw [added]
    exact (Function.update_of_ne away _ _).trans listed

theorem loop {label : TimerQueue.Label} (old : Genuine s) (met : s.InTime (.loop label))
    (taken : s.step (.loop label) = some after) : Genuine after := by
  have sharing := old.sharing.step taken
  simp only [TimerThreads.step] at taken
  split at taken <;> cases taken
  rename_i able
  obtain ⟨queue,made,threads,_⟩ := s.loop_queue label
  refine ⟨sharing,?_,?_⟩
  · intro one a q building
    rw [threads] at building
    obtain ⟨v,found,same⟩ := old.alive one a q building
    rcases memory_cases found with waiting | ⟨_,listed⟩
    · refine ⟨v,memory_made ?_,same⟩
      rw [made]
      exact waiting
    · obtain ⟨w,there,equal⟩ := old.loop_keeps able.1 able.2 met building listed same
      refine ⟨w,sharing.placed.memory_queue ?_,equal⟩
      rw [queue]
      exact there
  · cases label with
    | add timer u clock =>
      intro id q member
      rcases List.mem_append.mp member with before | last
      · exact old.ids id q before
      · cases List.mem_singleton.mp last
        rfl
    | _ => exact old.ids

theorem step (old : Genuine s) (met : s.InTime label) (taken : s.step label = some after) : Genuine after := by
  cases label with
  | newTimer t timer u => exact old.newTimer taken
  | queueInLoop t => exact old.queueInLoop taken
  | timerId t garbage => exact old.timerId taken
  | addTimerInLoop clock => exact old.addTimerInLoop taken
  | loop label => exact old.loop met taken

theorem dies (old : Genuine s) (missed : ¬s.InTime label) (taken : s.step label = some after) : ¬Alive after := by
  cases label with
  | loop label =>
    simp only [TimerThreads.step] at taken
    split at taken <;> cases taken
    rename_i able
    obtain ⟨queue,made,threads,_⟩ := s.loop_queue label
    cases label with
    | reset clock =>
      unfold InTime at missed
      push Not at missed
      obtain ⟨t,timer,q,building,e,inside,rfl,u,found,once⟩ := missed
      intro alive
      obtain ⟨v,there,_⟩ := alive t e.timer q (threads ▸ building)
      have unmade : (s.loop (.reset clock)).made e.timer = none := by
        rw [made]
        by_contra some
        obtain ⟨w,waiting⟩ := Option.ne_none_iff_exists'.mp some
        cases (old.sharing.placed.apart e.timer w waiting).symm.trans found
      have gone := old.sharing.placed.queue.reset_heap able.1 inside found
      rw [if_neg fun choice => once choice.1] at gone
      rw [memory_heap unmade,queue,gone] at there
      cases there
    | _ => exact absurd trivial missed
  | _ => exact absurd trivial missed

end Genuine

theorem Genuine.started : Genuine (new : TimerThreads Tid) :=
  ⟨Sharing.started,fun _ _ _ absent => (by cases absent),fun _ _ absent => (by cases absent)⟩

variable [DecidableEq Tid]

theorem alive_iff_in_time {labels : List (Label Tid)} (ran : machine.run new labels = some last) :
    machine.Throughout Alive new labels ↔ machine.Meets InTime new labels := by
  refine Machine.throughout_iff_meets (fun s old => Genuine.alive old) ?_ ?_ Genuine.started ran
  · intro s label after old met taken
    exact old.step met taken
  · intro s label after old missed taken
    exact old.dies missed taken

-- A one-shot Timer of another thread whose whole life comes before its id.
def wholeLife : List (Label Unit) :=
  [.newTimer () 1 ⟨100,0,false,0⟩,.queueInLoop (),.addTimerInLoop 110,.loop (.handleRead 120),.loop .run,.loop .returns]

theorem read_after_delete : ∃ s : TimerThreads Unit, machine.run new (wholeLife ++ [.loop (.reset 130)]) = some s ∧
    s.threads () = .building 1 0 ∧ s.memory 1 = none := by
  exact ⟨_,rfl,rfl,rfl⟩

theorem alive_before_delete :
    machine.Throughout Alive new (wholeLife ++ [.timerId () 0,.loop (.reset 130)]) := by
  refine (@alive_iff_in_time Unit _ _ _ rfl).mpr ?_
  iterate 7
    refine .cons trivial rfl ?_
  refine ⟨?_,fun _ _ => trivial⟩
  intro t timer q building
  cases building

end NewMuduo.TimerThreads
