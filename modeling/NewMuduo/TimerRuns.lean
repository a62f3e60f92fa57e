import NewMuduo.TimerLedger

namespace NewMuduo.TimerQueue
variable {s after : TimerQueue} {e : Entry} {t : Timer} {batch pending : List Entry} {timer q : Nat}

-- What reset leaves at the address of a Timer of the batch.
def outcome (s : TimerQueue) (timer : Nat) (t : Timer) : Option Timer :=
  if t.repeats = true ∧ (timer,t.sequence) ∉ s.cancelingTimers then some t.restart else none

theorem resetOne_heap (found : s.heap e.timer = some t) :
    (s.resetOne e).heap = Function.update s.heap e.timer (s.outcome e.timer t) := by
  rw [resetOne_some found]
  unfold outcome
  split <;> rfl

theorem resetOne_untouched (apart : timer ≠ e.timer) : (s.resetOne e).heap timer = s.heap timer := by
  cases found : s.heap e.timer with
  | none =>
    unfold resetOne deref
    rw [found]
  | some t =>
    rw [resetOne_heap found]
    exact Function.update_of_ne apart _ _

theorem resets_untouched (apart : ∀ e ∈ batch, timer ≠ e.timer) : (batch.foldl resetOne s).heap timer = s.heap timer := by
  induction batch generalizing s with
  | nil => rfl
  | cons e rest ih =>
    have later := @ih (s.resetOne e) fun other member => apart other (List.mem_cons_of_mem _ member)
    exact later.trans (resetOne_untouched (apart e List.mem_cons_self))

theorem Sound.resets_heap (old : Sound batch [] s) (member : e ∈ batch) (found : s.heap e.timer = some t) :
    (batch.foldl resetOne s).heap e.timer = s.outcome e.timer t := by
  induction batch generalizing s with
  | nil => cases member
  | cons cur rest ih =>
    have apart : ∀ other ∈ rest, cur.timer ≠ other.timer := by
      intro other later same
      have equal := old.distinct (.inr List.mem_cons_self) (.inr (List.mem_cons_of_mem _ later)) same
      exact (List.nodup_cons.mp old.once).1 (equal ▸ later)
    rcases List.mem_cons.mp member with rfl | later
    · have rest_keeps := @resets_untouched (s.resetOne e) _ _ apart
      rw [List.foldl_cons,rest_keeps,resetOne_heap found,Function.update_self]
    · have kept := (@resetOne_untouched s cur _ (apart e later).symm).trans found
      obtain ⟨_,_,canceling⟩ := resetOne_frame s cur
      rw [List.foldl_cons,ih old.settle later kept]
      unfold outcome
      rw [canceling]

-- A Timer as it was: itself and its part of every set.
structure Same (s after : TimerQueue) (timer : Nat) (t : Timer) : Prop where
  heap : after.heap timer = some t
  timers : ∀ expiration, (⟨expiration,timer⟩ : Entry) ∈ after.timers ↔ ⟨expiration,timer⟩ ∈ s.timers
  active : (timer,t.sequence) ∈ after.activeTimers ↔ (timer,t.sequence) ∈ s.activeTimers
  canceling : (timer,t.sequence) ∈ after.cancelingTimers ↔ (timer,t.sequence) ∈ s.cancelingTimers

-- A TimerId touches no other Timer, one at the same address included.
theorem Sound.cancel_same (old : Sound batch [] s) {other : Nat} (found : s.heap other = some t)
    (apart : (other,t.sequence) ≠ (timer,q)) : Same s (s.cancelInLoop timer q) other t := by
  rcases old.cancelInLoop timer q with ⟨u,here,rfl,_,after⟩ | ⟨_,after⟩ <;> rw [after]
  · have away : other ≠ timer := by
      rintro rfl
      cases found.symm.trans here
      exact apart rfl
    refine ⟨(Function.update_of_ne away _ _).trans found,fun expiration => ?_,?_,Iff.rfl⟩
    · dsimp only
      rw [OrderedSet.mem_erase]
      exact and_iff_left fun equal => away (Entry.mk.inj equal).2
    · dsimp only
      rw [Finset.mem_erase]
      exact and_iff_right fun equal => away (Prod.mk.inj equal).1
  · refine ⟨found,fun _ => Iff.rfl,Iff.rfl,?_⟩
    dsimp only
    split
    · rw [Finset.mem_insert]
      exact or_iff_right apart
    · exact Iff.rfl

theorem Sound.cancel_current (old : Sound batch [] s) (found : s.heap timer = some t)
    (waiting : (⟨t.expiration,timer⟩ : Entry) ∉ batch) : (s.cancelInLoop timer t.sequence).heap timer = none := by
  have listed := ((old.homes ⟨t.expiration,timer⟩).mpr ⟨t,found,rfl⟩).resolve_right waiting
  have active := (old.active timer t.sequence).mpr ⟨t,found,rfl,.inl listed⟩
  rcases old.cancelInLoop timer t.sequence with ⟨_,_,_,_,after⟩ | ⟨absent,_⟩
  · rw [after]
    exact Function.update_self _ _ _
  · exact absurd active absent

theorem deactivates_heap (pending : List Entry) (s : TimerQueue) : (pending.foldl deactivate s).heap = s.heap := by
  induction pending generalizing s with
  | nil => rfl
  | cons e rest ih =>
    refine (ih (s.deactivate e)).trans ?_
    unfold deactivate deref
    split <;> rfl

theorem handleRead_heap (now : Int) : (s.apply (.handleRead now)).heap = s.heap := deactivates_heap _ _

theorem run_heap : (s.apply .run).heap = s.heap := by
  unfold apply deref
  dsimp only
  repeat' split
  all_goals rfl

namespace Accounted

theorem idle_reset (old : Accounted s) (able : s.allowed (.reset clock) = true) :
    (s.apply (.reset clock)).heap =
      (s.expired.foldl resetOne {s with callingExpiredTimers := false,batch := none}).heap := by
  obtain ⟨timerfd,after⟩ := (old.settled able).sound.rearm clock
  have reset : s.apply (.reset clock) = _ := after
  rw [reset]

theorem emptied (old : Accounted s) (able : s.allowed (.reset clock) = true) : (s.apply (.reset clock)).expired = [] := by
  obtain ⟨timerfd,after⟩ := (old.settled able).sound.rearm clock
  have reset : s.apply (.reset clock) = _ := after
  obtain ⟨_,batch,_⟩ := resets_frame s.expired {s with callingExpiredTimers := false,batch := none}
  unfold TimerQueue.expired at *
  rw [reset]
  dsimp only
  rw [batch]
  rfl

theorem reset_untouched (old : Accounted s) (able : s.allowed (.reset clock) = true)
    (apart : ∀ e ∈ s.expired, timer ≠ e.timer) : (s.apply (.reset clock)).heap timer = s.heap timer := by
  rw [old.idle_reset able]
  exact resets_untouched apart

theorem reset_heap (old : Accounted s) (able : s.allowed (.reset clock) = true) (member : e ∈ s.expired)
    (found : s.heap e.timer = some t) : (s.apply (.reset clock)).heap e.timer =
      if t.repeats = true ∧ (e.timer,t.sequence) ∉ s.cancels then some t.restart else none := by
  have sound : Sound s.expired [] {s with callingExpiredTimers := false,batch := none} :=
    old.tracked.sound.other _ _ _ _ _ _ _ _
  rw [old.idle_reset able,sound.resets_heap member found]
  exact if_congr (and_congr_right' (not_congr (old.tracked.marked e member t found))) rfl rfl

-- A Timer goes when its id is cancelled, or when the batch is done and it had
-- its run for good.
theorem goes (old : Accounted s) {label : Label} (able : s.allowed label = true) (found : s.heap timer = some t)
    (gone : (s.apply label).heap timer = none) :
    label = .cancel timer t.sequence ∨ ∃ clock, label = .reset clock ∧ (⟨t.expiration,timer⟩ : Entry) ∈ s.expired ∧
      t.sequence ∈ s.runs ∧ (t.repeats = false ∨ (timer,t.sequence) ∈ s.cancels) := by
  cases label with
  | add other u clock =>
    obtain ⟨timerfd,after⟩ := add_some s other u clock
    rw [after] at gone
    have before := (Ledger.update_kept gone).2
    rw [found] at before
    cases before
  | cancel other q =>
    refine .inl ?_
    by_contra apart
    have differ : (timer,t.sequence) ≠ (other,q) := by
      intro same
      cases same
      exact apart rfl
    have kept := ((old.recorded other q).cancel_same found differ).heap
    cases gone.symm.trans kept
  | handleRead now =>
    rw [handleRead_heap,found] at gone
    cases gone
  | run =>
    rw [run_heap,found] at gone
    cases gone
  | returns => cases found.symm.trans gone
  | reset clock =>
    refine .inr ⟨clock,rfl,?_⟩
    have inside : (⟨t.expiration,timer⟩ : Entry) ∈ s.expired := by
      by_contra outside
      have apart : ∀ e ∈ s.expired, timer ≠ e.timer := by
        rintro e member rfl
        rw [old.tracked.sound.unique (.inr member) found] at outside
        exact outside member
      rw [old.reset_untouched able apart,found] at gone
      cases gone
    have left := (old.reset_heap able inside found).symm.trans gone
    refine ⟨inside,old.tracked.ran _ (by rw [finished able]; exact inside) t found,?_⟩
    split at left
    · cases left
    · rename_i choice
      by_contra neither
      obtain ⟨repeating,uncancelled⟩ := not_or.mp neither
      exact choice ⟨Bool.of_not_eq_false repeating,uncancelled⟩
  | expire => cases found.symm.trans gone

end Accounted

theorem accounted : machine.Preserves (fun _ _ => True) Accounted := by
  refine Machine.guarded_preserves ?_ ?_
  · rintro _ rfl
    exact Accounted.started
  · intro s label old able
    exact old.step label able

-- Every Timer is where it belongs, under its expiration, and goes once, for a
-- reason; an id cancels the Timer it was given for and no other.
theorem timers_accounted (path : machine.Reached s) :
    s.fault = false ∧
    (∀ e ∈ s.timers, ∃ t, s.heap e.timer = some t ∧ t.expiration = e.expiration ∧
      (e.timer,t.sequence) ∈ s.activeTimers) ∧
    (∀ timer q, (timer,q) ∈ s.activeTimers → ∃ t, s.heap timer = some t ∧ t.sequence = q ∧
      (⟨t.expiration,timer⟩ : Entry) ∈ s.timers) ∧
    (∀ timer t, s.heap timer = some t →
      Xor ((⟨t.expiration,timer⟩ : Entry) ∈ s.timers) ((⟨t.expiration,timer⟩ : Entry) ∈ s.expired)) ∧
    (∀ q ∈ s.used, Xor (∃ timer t, s.heap timer = some t ∧ t.sequence = q) (q ∈ s.deleted)) ∧
    s.deleted.Nodup ∧
    (∀ label after, machine.next s label = some after → ∀ timer t, s.heap timer = some t → after.heap timer = none →
      label = .cancel timer t.sequence ∨ ∃ clock, label = .reset clock ∧ (⟨t.expiration,timer⟩ : Entry) ∈ s.expired ∧
        t.sequence ∈ s.runs ∧ (t.repeats = false ∨ (timer,t.sequence) ∈ s.cancels)) ∧
    (∀ timer q after, machine.next s (.cancel timer q) = some after →
      (∀ other t, s.heap other = some t → (other,t.sequence) ≠ (timer,q) → Same s after other t) ∧
      (∀ t, s.heap timer = some t → t.sequence = q → (⟨t.expiration,timer⟩ : Entry) ∈ s.timers →
        after.heap timer = none)) ∧
    (∀ clock after, machine.next s (.reset clock) = some after → ∀ e ∈ s.expired, ∃ t, s.heap e.timer = some t ∧
      t.sequence ∈ s.runs ∧
      if t.repeats = true ∧ (e.timer,t.sequence) ∉ s.cancels then
        after.heap e.timer = some t.restart ∧ (⟨t.restart.expiration,e.timer⟩ : Entry) ∈ after.timers
      else after.heap e.timer = none ∧ ∀ kept ∈ after.timers, kept.timer ≠ e.timer) := by
  have old := accounted.reached path
  have sound := old.tracked.sound
  refine ⟨sound.unfaulted,?_,?_,?_,fun q given => old.tracked.ledger.exactly_one given,old.tracked.ledger.once,?_,?_,?_⟩
  · intro e member
    obtain ⟨t,found,expiration⟩ := sound.live (.inl member)
    refine ⟨t,found,expiration,(sound.active _ _).mpr ⟨t,found,rfl,.inl ?_⟩⟩
    rw [sound.unique (.inl member) found]
    exact member
  · intro timer q member
    obtain ⟨t,found,same,listed⟩ := (sound.active timer q).mp member
    exact ⟨t,found,same,listed.resolve_right List.not_mem_nil⟩
  · intro timer t found
    rcases (sound.homes ⟨t.expiration,timer⟩).mpr ⟨t,found,rfl⟩ with listed | taken
    · exact .inl ⟨listed,fun taken => sound.apart _ taken listed⟩
    · exact .inr ⟨taken,sound.apart _ taken⟩
  · intro label after taken timer t found gone
    obtain ⟨able,rfl⟩ := Machine.guarded_parts.mp taken
    exact old.goes able found gone
  · intro timer q after taken
    obtain ⟨_,rfl⟩ := Machine.guarded_parts.mp taken
    refine ⟨fun other t found apart => ?_,?_⟩
    · obtain ⟨heap,timers,active,canceling⟩ := (old.recorded timer q).cancel_same found apart
      exact ⟨heap,timers,active,canceling⟩
    · rintro t found rfl listed
      exact (old.recorded timer t.sequence).cancel_current found fun taken => sound.apart _ taken listed
  · intro clock after taken e member
    have next := old.step (.reset clock) (Machine.guarded_parts.mp taken).1
    obtain ⟨able,rfl⟩ := Machine.guarded_parts.mp taken
    obtain ⟨t,found,_⟩ := sound.live (.inr member)
    refine ⟨t,found,old.tracked.ran e (by rw [Accounted.finished able]; exact member) t found,?_⟩
    have left := old.reset_heap able member found
    have alone := next.tracked.sound
    rw [old.emptied able] at alone
    split <;> rename_i choice
    · rw [if_pos choice] at left
      have home := (alone.homes ⟨t.restart.expiration,e.timer⟩).mpr ⟨t.restart,left,rfl⟩
      exact ⟨left,home.resolve_right List.not_mem_nil⟩
    · rw [if_neg choice] at left
      refine ⟨left,?_⟩
      intro kept listed same
      obtain ⟨_,there,_⟩ := alone.live (.inl listed)
      rw [same,left] at there
      cases there

-- The first Timer repeats and cancels the second in its callback; a third takes
-- the second's address and outlives the old id.
def reuse : List Label :=
  [.add 1 ⟨100,50,true,0⟩ 0,.add 2 ⟨110,0,false,1⟩ 0,.handleRead 120,.run,.cancel 2 1,.returns,.run,.returns,.reset 130,
    .add 2 ⟨500,0,false,2⟩ 140,.cancel 2 1]

theorem reuse_accounted : ∃ s, machine.run new reuse = some s ∧ s.deleted = [1] ∧
    s.timers.items.map (·.expiration) = [150,500] ∧ s.heap 2 = some ⟨500,0,false,2⟩ ∧
    s.fault = false ∧ s.deleted.Nodup ∧
    (∀ timer q, (timer,q) ∈ s.activeTimers → ∃ t, s.heap timer = some t ∧ t.sequence = q ∧
      (⟨t.expiration,timer⟩ : Entry) ∈ s.timers) := by
  refine ⟨_,rfl,rfl,rfl,rfl,?_⟩
  obtain ⟨unfaulted,_,active,_,_,once,_⟩ := timers_accounted (@Machine.Reached.run _ _ machine new reuse _ (.start rfl) rfl)
  exact ⟨unfaulted,once,active⟩

end NewMuduo.TimerQueue
