import NewMuduo.TimerSets

namespace NewMuduo.TimerQueue
variable {s : TimerQueue} {e : Entry} {t : Timer} {batch done rest : List Entry} {timer q : Nat}

-- The sets, with every Timer accounted for: those of the batch in done have
-- run, and cancelingTimers_ has those of the batch that were cancelled.
structure Tracked (batch done : List Entry) (s : TimerQueue) : Prop where
  sound : Sound batch [] s
  ledger : Ledger Timer.sequence s.heap s.used s.deleted
  marked : ∀ e ∈ batch, ∀ t, s.heap e.timer = some t →
    ((e.timer,t.sequence) ∈ s.cancelingTimers ↔ (e.timer,t.sequence) ∈ s.cancels)
  ran : ∀ e ∈ done, ∀ t, s.heap e.timer = some t → t.sequence ∈ s.runs

namespace Tracked

theorem other (old : Tracked batch done s) (timerfd : Timerfd) (calling : Bool) (running : Option Batch) :
    Tracked batch done {s with timerfd := timerfd,callingExpiredTimers := calling,batch := running} :=
  ⟨old.sound.other _ _ _ _ _ _ _ _,old.ledger,old.marked,old.ran⟩

theorem add (old : Tracked batch done s) (inside : ∀ e ∈ done, e ∈ batch) (vacant : s.heap timer = none)
    (small : timer < UINTPTR_MAX) (fresh : t.sequence ∉ s.used) :
    Tracked batch done ({s with
      heap := Function.update s.heap timer (some t)
      used := s.used ++ [t.sequence]}.insert timer t) := by
  have same : ∀ e ∈ batch, Function.update s.heap timer (some t) e.timer = s.heap e.timer := by
    intro e member
    obtain ⟨_,found,_⟩ := old.sound.live (.inr member)
    refine Function.update_of_ne (fun equal => ?_) _ _
    rw [equal,vacant] at found
    cases found
  refine ⟨(old.sound.place vacant small t).other _ _ _ _ _ _ _ _,old.ledger.allocate vacant fresh,?_,?_⟩
  · intro e member u found
    exact old.marked e member u ((same e member).symm.trans found)
  · intro e member u found
    exact old.ran e member u ((same e (inside e member)).symm.trans found)

theorem cancel (old : Tracked batch done s) (calling : batch ≠ [] → s.callingExpiredTimers = true) (timer q : Nat) :
    Tracked batch done ({s with cancels := s.cancels ++ [(timer,q)]}.cancelInLoop timer q) := by
  have sound := old.sound.other s.cancelingTimers s.timerfd s.callingExpiredTimers s.batch s.used s.runs
    (s.cancels ++ [(timer,q)]) s.deleted
  rcases sound.cancelInLoop timer q with ⟨t,found,rfl,member,after⟩ | ⟨_,after⟩ <;> rw [after]
  · refine ⟨(sound.erase found member).other _ _ _ _ _ _ _ _,old.ledger.free found,?_,?_⟩
    · intro e inside u there
      obtain ⟨apart,there⟩ := Ledger.update_none there
      rw [List.mem_append,old.marked e inside u there]
      simp [apart]
    · intro e inside u there
      exact old.ran e inside u (Ledger.update_none there).2
  · refine ⟨sound.other _ _ _ _ _ _ _ _,old.ledger,?_,old.ran⟩
    intro e inside u there
    dsimp only
    rw [calling (List.ne_nil_of_mem inside),if_pos rfl,Finset.mem_insert,List.mem_append,List.mem_singleton,
      old.marked e inside u there]
    exact or_comm

theorem handleRead (old : Tracked [] [] s) (now : Int) : Tracked (s.getExpired now).2 []
    {(s.getExpired now).1 with cancelingTimers := ∅,cancels := []} := by
  have lives : ∀ e ∈ s.timers.below ⟨now,UINTPTR_MAX⟩, (s.heap e.timer).isSome := by
    intro e below
    obtain ⟨t,found,_⟩ := old.sound.live (.inl (OrderedSet.mem_below.mp below).1)
    rw [found]
    rfl
  obtain ⟨active,after⟩ := deactivates_frame (s := {s with timers := s.timers.above ⟨now,UINTPTR_MAX⟩}) lives
  have sound := (old.sound.getExpired now).other ∅ s.timerfd s.callingExpiredTimers s.batch s.used s.runs [] s.deleted
  have equal : (s.getExpired now).1 = {s with timers := s.timers.above ⟨now,UINTPTR_MAX⟩,activeTimers := active} := after
  rw [equal] at sound ⊢
  refine ⟨sound,old.ledger,?_,?_⟩
  · intro e _ t _
    exact iff_of_false (Finset.notMem_empty _) List.not_mem_nil
  · intro e absent
    cases absent

theorem run (old : Tracked batch done s) (found : s.heap e.timer = some t) :
    Tracked batch (done ++ [e]) {s with runs := s.runs ++ [t.sequence]} := by
  refine ⟨old.sound.other _ _ _ _ _ _ _ _,old.ledger,old.marked,?_⟩
  intro e' member u there
  rcases List.mem_append.mp member with member | last
  · exact List.mem_append_left _ (old.ran e' member u there)
  · rw [List.mem_singleton.mp last] at there
    cases found.symm.trans there
    exact List.mem_append_right _ List.mem_cons_self

-- One turn of the loop of reset.
theorem resetOne (old : Tracked (e :: rest) (e :: rest) s) : Tracked rest rest (s.resetOne e) := by
  obtain ⟨t,found,_⟩ := old.sound.live (.inr List.mem_cons_self)
  have sound := old.sound.settle
  have others : ∀ e' ∈ rest, e'.timer ≠ e.timer := by
    intro e' member same
    have equal := old.sound.distinct (.inr (List.mem_cons_of_mem _ member)) (.inr List.mem_cons_self) same
    exact (List.nodup_cons.mp old.sound.once).1 (equal ▸ member)
  rw [resetOne_some found] at sound ⊢
  split at sound <;> rename_i choice
  · rw [if_pos choice]
    refine ⟨sound,old.ledger.replace found rfl,?_,?_⟩
    · intro e' member u there
      have before := (Function.update_of_ne (others e' member) _ _).symm.trans there
      exact old.marked e' (List.mem_cons_of_mem _ member) u before
    · intro e' member u there
      have before := (Function.update_of_ne (others e' member) _ _).symm.trans there
      exact old.ran e' (List.mem_cons_of_mem _ member) u before
  · rw [if_neg choice]
    refine ⟨sound,old.ledger.free found,?_,?_⟩
    · intro e' member u there
      exact old.marked e' (List.mem_cons_of_mem _ member) u (Ledger.update_none there).2
    · intro e' member u there
      exact old.ran e' (List.mem_cons_of_mem _ member) u (Ledger.update_none there).2

theorem resets (old : Tracked batch batch s) : Tracked [] [] (batch.foldl TimerQueue.resetOne s) := by
  induction batch generalizing s with
  | nil => exact old
  | cons e rest ih => exact ih old.resetOne

end Tracked

-- The sets and the Timers as they are between the labels.
structure Accounted (s : TimerQueue) : Prop where
  calling : s.callingExpiredTimers = s.batch.isSome
  tracked : Tracked s.expired s.done s

-- cancelInLoop only takes away.
theorem Sound.cancelInLoop_takes (old : Sound batch [] s) (timer q : Nat) :
    (s.cancelInLoop timer q).batch = s.batch ∧ (s.cancelInLoop timer q).callingExpiredTimers = s.callingExpiredTimers ∧
      (s.cancelInLoop timer q).timerfd = s.timerfd ∧ (∀ e ∈ (s.cancelInLoop timer q).timers, e ∈ s.timers) ∧
      ∀ other t, (s.cancelInLoop timer q).heap other = some t → s.heap other = some t := by
  rcases old.cancelInLoop timer q with ⟨_,_,_,_,after⟩ | ⟨_,after⟩ <;> rw [after]
  · refine ⟨rfl,rfl,rfl,fun e kept => (OrderedSet.mem_erase.mp kept).1,fun other t found => ?_⟩
    exact (Ledger.update_none found).2
  · exact ⟨rfl,rfl,rfl,fun e kept => kept,fun other t found => found⟩

theorem resetOne_frame (s : TimerQueue) (cur : Entry) :
    (s.resetOne cur).callingExpiredTimers = s.callingExpiredTimers ∧ (s.resetOne cur).batch = s.batch ∧
      (s.resetOne cur).cancelingTimers = s.cancelingTimers := by
  cases here : s.heap cur.timer with
  | none =>
    unfold resetOne deref
    rw [here]
    exact ⟨rfl,rfl,rfl⟩
  | some t =>
    rw [resetOne_some here]
    split <;> exact ⟨rfl,rfl,rfl⟩

theorem resets_frame (batch : List Entry) (s : TimerQueue) :
    (batch.foldl resetOne s).callingExpiredTimers = s.callingExpiredTimers ∧
      (batch.foldl resetOne s).batch = s.batch ∧ (batch.foldl resetOne s).cancelingTimers = s.cancelingTimers := by
  induction batch generalizing s with
  | nil => exact ⟨rfl,rfl,rfl⟩
  | cons cur rest ih =>
    obtain ⟨calling,running,canceling⟩ := resetOne_frame s cur
    obtain ⟨calling_rest,running_rest,canceling_rest⟩ := ih (s.resetOne cur)
    exact ⟨calling_rest.trans calling,running_rest.trans running,canceling_rest.trans canceling⟩

namespace Accounted

theorem started : Accounted new := by
  have nothing : ∀ e : Entry, e ∉ new.timers := fun _ => OrderedSet.not_mem_empty
  refine ⟨rfl,⟨?_,fun _ absent => (by cases absent),?_,.nil,fun _ _ absent => (by cases absent),rfl⟩,Ledger.none,?_,?_⟩
  · intro e
    refine iff_of_false (fun member => ?_) ?_
    · exact member.elim (nothing e) List.not_mem_nil
    · intro given
      obtain ⟨_,absent,_⟩ := given
      cases absent
  · intro timer q
    refine iff_of_false (Finset.notMem_empty _) ?_
    intro given
    obtain ⟨_,absent,_⟩ := given
    cases absent
  all_goals
    intro _ absent
    cases absent

theorem inside (member : e ∈ s.done) : e ∈ s.expired := by
  unfold done at member
  unfold expired
  cases here : s.batch with
  | none => rw [here] at member; cases member
  | some b => rw [here] at member; exact List.mem_append_left _ member

theorem finished (able : s.allowed (.reset clock) = true) : s.done = s.expired := by
  obtain ⟨⟨done,left,running⟩,here,waiting⟩ := (Option.any_eq_true _ _).mp able
  unfold TimerQueue.done TimerQueue.expired Batch.expired
  rw [here]
  cases left with
  | nil => exact (List.append_nil _).symm
  | cons _ _ => simp at waiting

theorem settled (old : Accounted s) (able : s.allowed (.reset clock) = true) :
    Tracked [] [] (s.expired.foldl TimerQueue.resetOne {s with callingExpiredTimers := false,batch := none}) := by
  have tracked := old.tracked
  rw [finished able] at tracked
  exact (tracked.other _ _ _).resets

theorem recorded (old : Accounted s) (timer q : Nat) :
    Sound s.expired [] {s with cancels := s.cancels ++ [(timer,q)]} := old.tracked.sound.other _ _ _ _ _ _ _ _

theorem run_some (old : Accounted s) (able : s.allowed .run = true) : ∃ done cur rest running t,
    s.batch = some ⟨done,cur :: rest,running⟩ ∧ s.heap cur.timer = some t ∧ s.apply .run = {s with
      runs := s.runs ++ [t.sequence]
      batch := some ⟨done ++ [cur],rest,true⟩} := by
  obtain ⟨⟨done,left,running⟩,here,waiting⟩ := (Option.any_eq_true _ _).mp able
  cases left with
  | nil => simp at waiting
  | cons cur rest =>
    have member : cur ∈ s.expired := by
      unfold TimerQueue.expired
      rw [here]
      exact List.mem_append_right _ List.mem_cons_self
    obtain ⟨t,found,_⟩ := old.tracked.sound.live (.inr member)
    refine ⟨done,cur,rest,running,t,here,found,?_⟩
    unfold apply
    simp only [here]
    exact deref_some found _

theorem step (old : Accounted s) (label : Label) (able : s.allowed label = true) : Accounted (s.apply label) := by
  cases label with
  | add timer t clock =>
    simp only [allowed,Bool.and_eq_true,decide_eq_true_iff,Option.isNone_iff_eq_none] at able
    obtain ⟨⟨⟨_,vacant⟩,fresh⟩,small⟩ := able
    obtain ⟨timerfd,after⟩ := add_some s timer t clock
    rw [after]
    exact ⟨old.calling,(old.tracked.add (fun _ => inside) vacant small fresh).other _ _ _⟩
  | cancel timer q =>
    have calling : s.expired ≠ [] → s.callingExpiredTimers = true := by
      intro some
      rw [old.calling]
      unfold expired at some
      cases here : s.batch with
      | none => rw [here] at some; exact absurd rfl some
      | some b => rfl
    have tracked := old.tracked.cancel calling timer q
    obtain ⟨batch,same,_⟩ := (old.recorded timer q).cancelInLoop_takes timer q
    refine ⟨?_,?_⟩
    · unfold apply
      dsimp only at batch same ⊢
      rw [batch,same,old.calling]
    · unfold apply expired done
      dsimp only at batch ⊢
      rw [batch]
      exact tracked
  | handleRead now =>
    have idle : s.batch = none := Option.isNone_iff_eq_none.mp able
    have tracked := old.tracked
    unfold expired done at tracked
    rw [idle] at tracked
    have read : Tracked [] [] s.readTimerfd := tracked.other _ _ _
    exact ⟨rfl,(read.handleRead now).other _ _ _⟩
  | run =>
    obtain ⟨done,cur,rest,running,t,here,found,ran⟩ := old.run_some able
    have tracked := old.tracked
    unfold TimerQueue.expired TimerQueue.done at tracked
    rw [here] at tracked
    have next := (tracked.run found).other s.timerfd s.callingExpiredTimers (some ⟨done ++ [cur],rest,true⟩)
    rw [ran]
    refine ⟨old.calling.trans (by rw [here]; rfl),?_⟩
    unfold TimerQueue.expired Batch.expired at *
    dsimp only [Option.elim] at next ⊢
    rw [List.append_assoc]
    exact next
  | returns =>
    obtain ⟨b,here,_⟩ := (Option.any_eq_true _ _).mp able
    have tracked := old.tracked
    unfold expired done at tracked
    rw [here] at tracked
    unfold apply
    rw [here]
    exact ⟨old.calling.trans (by rw [here]; rfl),tracked.other _ _ _⟩
  | reset clock =>
    have settled := old.settled able
    obtain ⟨timerfd,after⟩ := settled.sound.rearm clock
    have reset : s.apply (.reset clock) = _ := after
    obtain ⟨calling,batch,_⟩ := resets_frame s.expired {s with callingExpiredTimers := false,batch := none}
    rw [reset]
    refine ⟨?_,?_⟩
    · dsimp only
      rw [calling,batch]
      rfl
    · unfold TimerQueue.expired TimerQueue.done at *
      dsimp only
      rw [batch]
      exact settled.other _ _ _
  | expire => exact ⟨old.calling,old.tracked.other _ _ _⟩

end Accounted
end NewMuduo.TimerQueue
