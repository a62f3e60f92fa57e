import NewMuduo.TimerRuns

namespace NewMuduo

namespace Timerfd

-- Armed for an instant no later than the expiration, but for the floor of 100.
def ArmedBy (timerfd : Timerfd) (expiration : Int) : Prop :=
  ∃ clock value, timerfd.armed = some (clock,value) ∧
    clock * 1000 + (value.tv_sec * 1000000000 + value.tv_nsec) ≤ max (expiration * 1000) ((clock + 100) * 1000)

def Wakes (timerfd : Timerfd) (expiration : Int) : Prop := 0 < timerfd.ticks ∨ timerfd.ArmedBy expiration

theorem Wakes.later {timerfd : Timerfd} {expiration later : Int} (old : timerfd.Wakes expiration) (le : expiration ≤ later) :
    timerfd.Wakes later := by
  refine old.imp_right ?_
  intro given
  obtain ⟨clock,value,armed,bound⟩ := given
  exact ⟨clock,value,armed,by omega⟩

end Timerfd

theorem Entry.expiration_le {a b : Entry} (le : a ≤ b) : a.expiration ≤ b.expiration := Prod.Lex.monotone_fst _ _ le

namespace TimerQueue
variable {s after : TimerQueue} {e : Entry} {t : Timer} {batch : List Entry} {timer : Nat} {clock expiration : Int}

-- The time set comes out exact, in nanoseconds.
theorem howMuchTimeFromNow_exact (clock expiration : Int) :
    let value := howMuchTimeFromNow clock expiration
    0 ≤ value.tv_sec ∧ 0 ≤ value.tv_nsec ∧ value.tv_nsec < 1000000000 ∧
      value.tv_sec * 1000000000 + value.tv_nsec = 1000 * max 100 (expiration - clock) := by
  unfold howMuchTimeFromNow
  intro value
  have floor : (if expiration - clock < 100 then 100 else expiration - clock) = max 100 (expiration - clock) := by
    split <;> omega
  have positive : 0 ≤ max 100 (expiration - clock) := by omega
  simp only [value,floor,Int.tdiv_eq_ediv_of_nonneg positive,Int.tmod_eq_emod_of_nonneg positive]
  omega

theorem resetTimerfd_arms (s : TimerQueue) (clock expiration : Int) :
    (s.resetTimerfd clock expiration).timerfd.ArmedBy expiration := by
  obtain ⟨sec,nsec,normal,exact⟩ := howMuchTimeFromNow_exact clock expiration
  refine ⟨clock,howMuchTimeFromNow clock expiration,?_,?_⟩
  · unfold resetTimerfd timerfd_settime
    dsimp only
    rw [if_neg (by omega),if_neg (by omega)]
  · rw [exact]
    omega

-- Every Timer comes from addTimer, or from one that repeats.
theorem Accounted.comes (old : Accounted s) {label : Label} (able : s.allowed label = true)
    (found : (s.apply label).heap timer = some t) : s.heap timer = some t ∨ (∃ clock, label = .add timer t clock) ∨
      ∃ u, s.heap timer = some u ∧ u.repeats = true ∧ t = u.restart := by
  cases label with
  | add other u clock =>
    obtain ⟨timerfd,after⟩ := add_some s other u clock
    rw [after] at found
    rcases Ledger.update_some found with ⟨rfl,rfl⟩ | ⟨_,there⟩
    · exact .inr (.inl ⟨clock,rfl⟩)
    · exact .inl there
  | cancel other q =>
    obtain ⟨_,_,_,_,kept⟩ := (old.recorded other q).cancelInLoop_takes other q
    exact .inl (kept timer t found)
  | handleRead now => exact .inl ((congrFun (handleRead_heap now) timer).symm.trans found)
  | run => exact .inl ((congrFun run_heap timer).symm.trans found)
  | returns => exact .inl found
  | reset clock =>
    by_cases apart : ∀ e ∈ s.expired, timer ≠ e.timer
    · exact .inl ((old.reset_untouched able apart).symm.trans found)
    · push Not at apart
      obtain ⟨e,member,rfl⟩ := apart
      obtain ⟨u,live,_⟩ := old.tracked.sound.live (.inr member)
      rw [old.reset_heap able member live] at found
      split at found
      · rename_i choice
        exact .inr (.inr ⟨u,live,choice.1,(Option.some.inj found).symm⟩)
      · cases found
  | expire => exact .inl found

def positive (_ : TimerQueue) : Label → Prop
  | .add _ t _ => 0 < t.expiration
  | _ => True

structure Guarded (s : TimerQueue) : Prop where
  accounted : Accounted s
  valid : ∀ timer t, s.heap timer = some t → 0 < t.expiration
  wakes : s.batch = none → ∀ e ∈ s.timers, s.timerfd.Wakes e.expiration

theorem Sound.rearm_wakes (old : Sound batch [] s) (valid : ∀ timer t, s.heap timer = some t → 0 < t.expiration)
    (member : e ∈ s.timers) (clock : Int) : (s.rearm clock).timerfd.Wakes e.expiration := by
  unfold TimerQueue.rearm
  split
  · rename_i empty
    exact absurd member (OrderedSet.first_none.mp empty e)
  · rename_i front found
    obtain ⟨t,live,expiration⟩ := old.live (.inl (OrderedSet.first_mem found))
    rw [deref_some live,if_pos (valid _ t live),expiration]
    have armed := resetTimerfd_arms s clock front.expiration
    exact Timerfd.Wakes.later (.inr armed) (Entry.expiration_le (OrderedSet.first_le found member))

theorem isEarliest_le (early : s.isEarliest expiration = true) (member : e ∈ s.timers) : expiration ≤ e.expiration := by
  unfold isEarliest at early
  split at early
  · rename_i empty
    exact absurd member (OrderedSet.first_none.mp empty e)
  · rename_i front found
    have least := Entry.expiration_le (OrderedSet.first_le found member)
    have before := of_decide_eq_true early
    omega

theorem not_isEarliest (late : s.isEarliest expiration = false) : ∃ front ∈ s.timers, front.expiration ≤ expiration := by
  unfold isEarliest at late
  split at late
  · cases late
  · rename_i front found
    exact ⟨front,OrderedSet.first_mem found,not_lt.mp (of_decide_eq_false late)⟩

-- insert tells when the new Timer is the earliest; otherwise one before it has
-- the timerfd set already.
theorem addTimerInLoop_wakes (wakes : ∀ e ∈ s.timers, s.timerfd.Wakes e.expiration) (found : s.heap timer = some t)
    (clock : Int) (member : e ∈ (s.addTimerInLoop clock timer).timers) :
    (s.addTimerInLoop clock timer).timerfd.Wakes e.expiration := by
  unfold addTimerInLoop at member ⊢
  rw [deref_some found] at member ⊢
  split at member <;> rename_i early
  · rw [if_pos early]
    have armed := resetTimerfd_arms (s.insert timer t) clock t.expiration
    rcases OrderedSet.mem_insert.mp member with rfl | before
    · exact .inr armed
    · exact Timerfd.Wakes.later (.inr armed) (isEarliest_le early before)
  · rw [if_neg early]
    rcases OrderedSet.mem_insert.mp member with rfl | before
    · obtain ⟨front,first,le⟩ := not_isEarliest (Bool.not_eq_true _ ▸ early)
      exact (wakes front first).later le
    · exact wakes e before

theorem Guarded.step (old : Guarded s) {label : Label} (able : s.allowed label = true) (met : positive s label) :
    Guarded (s.apply label) := by
  have valid : ∀ timer t, (s.apply label).heap timer = some t → 0 < t.expiration := by
    intro timer t found
    rcases old.accounted.comes able found with before | ⟨clock,rfl⟩ | ⟨u,before,repeating,rfl⟩
    · exact old.valid timer t before
    · exact met
    · have positive := old.valid timer u before
      unfold Timer.restart
      simp only [repeating,if_true]
      omega
  refine ⟨old.accounted.step label able,valid,fun outside e member => ?_⟩
  cases label with
  | add timer t clock =>
    obtain ⟨timerfd,after⟩ := add_some s timer t clock
    rw [after] at outside
    exact addTimerInLoop_wakes (s := {s with
      heap := Function.update s.heap timer (some t)
      used := s.used ++ [t.sequence]}) (old.wakes outside) (Function.update_self timer (some t) s.heap) clock member
  | cancel timer q =>
    obtain ⟨batch,_,timerfd,timers,_⟩ := (old.accounted.recorded timer q).cancelInLoop_takes timer q
    unfold apply at outside member ⊢
    dsimp only at outside member ⊢
    rw [batch] at outside
    rw [timerfd]
    exact old.wakes outside e (timers e member)
  | handleRead now => cases outside
  | run =>
    obtain ⟨_,_,_,_,_,_,_,ran⟩ := old.accounted.run_some able
    rw [ran] at outside
    cases outside
  | returns =>
    obtain ⟨b,here,_⟩ := (Option.any_eq_true _ _).mp able
    unfold apply at outside
    rw [here] at outside
    cases outside
  | reset clock =>
    have settled := old.accounted.settled able
    obtain ⟨timerfd,after⟩ := settled.sound.rearm clock
    have same : (s.apply (.reset clock)).timers = _ := congrArg TimerQueue.timers after
    refine settled.sound.rearm_wakes ?_ (same ▸ member) clock
    rw [← old.accounted.idle_reset able]
    exact valid
  | expire => exact .inl (Nat.succ_pos _)

theorem guarded : machine.Preserves positive Guarded := by
  refine ⟨?_,?_⟩
  · rintro _ rfl
    exact ⟨Accounted.started,fun _ _ absent => (by cases absent),fun _ e absent => absurd absent OrderedSet.not_mem_empty⟩
  · intro s label after old met taken
    obtain ⟨able,rfl⟩ := Machine.guarded_parts.mp taken
    exact old.step able met

-- Outside handleRead no Timer waits without a wakeup.
theorem never_without_wakeup (path : machine.ReachedUnder positive s) (outside : s.batch = none)
    (member : e ∈ s.timers) : s.timerfd.Wakes e.expiration := (guarded.reached path).wakes outside e member

-- The earliest is cancelled, the expiry set for it finds nothing to run, and
-- reset sets the timerfd for the one left.
def cancelled : List Label :=
  [.add 1 ⟨1000,0,false,0⟩ 0,.add 2 ⟨500,0,false,1⟩ 10,.cancel 2 1,.expire,.handleRead 510,.reset 520]

theorem cancelled_rearmed : ∃ s, machine.run new cancelled = some s ∧ s.timers.items.map (·.expiration) = [1000] ∧
    s.timerfd = ⟨0,some (520,⟨0,480000⟩)⟩ ∧ s.timerfd.Wakes 1000 := by
  refine ⟨_,rfl,rfl,rfl,?_⟩
  have met : machine.Meets positive new cancelled := by
    refine Machine.meets_labels ?_
    simp [cancelled,positive]
  exact never_without_wakeup (e := ⟨1000,1⟩) ((Machine.ReachedUnder.start rfl).along met rfl) rfl List.mem_cons_self

end TimerQueue
end NewMuduo
