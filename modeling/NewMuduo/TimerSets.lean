import NewMuduo.TimerQueue
import NewMuduo.Ledger

namespace NewMuduo.TimerQueue
variable {s : TimerQueue} {e : Entry} {t : Timer} {batch pending rest : List Entry} {timer : Nat}

theorem entry_eq {a b : Entry} (expiration : a.expiration = b.expiration) (timer : a.timer = b.timer) : a = b := by
  cases a
  cases b
  cases expiration
  cases timer
  rfl

-- Every Timer is in timers_ or in the batch under its expiration, and
-- activeTimers_ has those in timers_ and the ones getExpired is still to take
-- out of it.
structure Sound (batch pending : List Entry) (s : TimerQueue) : Prop where
  homes : ∀ e, e ∈ s.timers ∨ e ∈ batch ↔ ∃ t, s.heap e.timer = some t ∧ t.expiration = e.expiration
  apart : ∀ e, e ∈ batch → e ∉ s.timers
  active : ∀ timer q, (timer,q) ∈ s.activeTimers ↔ ∃ t, s.heap timer = some t ∧ t.sequence = q ∧
    ((⟨t.expiration,timer⟩ : Entry) ∈ s.timers ∨ (⟨t.expiration,timer⟩ : Entry) ∈ pending)
  once : batch.Nodup
  low : ∀ timer t, s.heap timer = some t → timer < UINTPTR_MAX
  unfaulted : s.fault = false

theorem deref_some (found : s.heap timer = some t) (use : Timer → TimerQueue) : s.deref timer use = use t := by
  unfold deref
  rw [found]

theorem delete_some (found : s.heap timer = some t) : s.delete timer = {s with
    heap := Function.update s.heap timer none
    deleted := s.deleted ++ [t.sequence]} := deref_some found _

theorem addTimerInLoop_some (found : s.heap timer = some t) (clock : Int) :
    ∃ timerfd, s.addTimerInLoop clock timer = {s.insert timer t with timerfd := timerfd} := by
  unfold addTimerInLoop
  rw [deref_some found]
  split
  · exact ⟨_,rfl⟩
  · exact ⟨s.timerfd,rfl⟩

theorem add_some (s : TimerQueue) (timer : Nat) (t : Timer) (clock : Int) :
    ∃ timerfd, s.apply (.add timer t clock) = {({s with
      heap := Function.update s.heap timer (some t)
      used := s.used ++ [t.sequence]} : TimerQueue).insert timer t with timerfd := timerfd} :=
  addTimerInLoop_some (s := {s with
    heap := Function.update s.heap timer (some t)
    used := s.used ++ [t.sequence]}) (Function.update_self timer (some t) s.heap) clock

theorem resetOne_some (found : s.heap e.timer = some t) : s.resetOne e =
    if t.repeats = true ∧ (e.timer,t.sequence) ∉ s.cancelingTimers then
      {s with heap := Function.update s.heap e.timer (some t.restart)}.insert e.timer t.restart
    else {s with
      heap := Function.update s.heap e.timer none
      deleted := s.deleted ++ [t.sequence]} := by
  unfold resetOne
  rw [deref_some found,delete_some found]

theorem deactivates_frame (lives : ∀ e ∈ pending, (s.heap e.timer).isSome) :
    ∃ active, pending.foldl deactivate s = {s with activeTimers := active} := by
  induction pending generalizing s with
  | nil => exact ⟨s.activeTimers,rfl⟩
  | cons e rest ih =>
    obtain ⟨t,found⟩ := Option.isSome_iff_exists.mp (lives e List.mem_cons_self)
    rw [List.foldl_cons]
    unfold deactivate
    rw [deref_some found]
    obtain ⟨active,after⟩ := @ih {s with activeTimers := s.activeTimers.erase (e.timer,t.sequence)}
      fun other later => lives other (List.mem_cons_of_mem _ later)
    exact ⟨active,after⟩

namespace Sound

theorem live (old : Sound batch pending s) (member : e ∈ s.timers ∨ e ∈ batch) :
    ∃ t, s.heap e.timer = some t ∧ t.expiration = e.expiration := (old.homes e).mp member

-- The entry of a Timer is the only one with its address.
theorem unique (old : Sound batch pending s) (member : e ∈ s.timers ∨ e ∈ batch) (found : s.heap e.timer = some t) :
    (⟨t.expiration,e.timer⟩ : Entry) = e := by
  obtain ⟨other,same,expiration⟩ := old.live member
  cases found.symm.trans same
  exact entry_eq expiration rfl

theorem distinct (old : Sound batch pending s) {one two : Entry} (first : one ∈ s.timers ∨ one ∈ batch)
    (second : two ∈ s.timers ∨ two ∈ batch) (same : one.timer = two.timer) : one = two := by
  obtain ⟨t,found,_⟩ := old.live first
  have found_two : s.heap two.timer = some t := same ▸ found
  rw [← old.unique first found,← old.unique second found_two,same]

-- A Timer of the batch goes.
theorem evict (old : Sound (e :: rest) [] s) :
    Sound rest [] {s with heap := Function.update s.heap e.timer none} := by
  obtain ⟨fresh,once⟩ := List.nodup_cons.mp old.once
  have here : e ∈ s.timers ∨ e ∈ e :: rest := .inr List.mem_cons_self
  refine ⟨fun other => ?_,fun other member => old.apart other (List.mem_cons_of_mem _ member),?_,once,?_,old.unfaulted⟩
  · dsimp only
    by_cases same : other.timer = e.timer
    · rw [same,Function.update_self]
      refine iff_of_false (fun member => ?_) (by simp)
      have equal := old.distinct (member.imp_right (List.mem_cons_of_mem _)) here same
      rw [equal] at member
      exact member.elim (old.apart e List.mem_cons_self) fresh
    · rw [Function.update_of_ne same,← old.homes other,List.mem_cons]
      have apart : other ≠ e := fun equal => same (equal ▸ rfl)
      simp [apart]
  · intro timer q
    dsimp only
    by_cases same : timer = e.timer
    · rw [same]
      refine iff_of_false (fun member => ?_) (by simp)
      obtain ⟨t,found,_,listed⟩ := (old.active _ _).mp member
      rw [old.unique here found] at listed
      exact listed.elim (old.apart e List.mem_cons_self) List.not_mem_nil
    · rw [old.active]
      simp only [Function.update_of_ne same]
  · intro timer t found
    exact old.low timer t (Ledger.update_none found).2

-- A Timer at a free address enters timers_ and activeTimers_.
theorem place (old : Sound batch [] s) (vacant : s.heap timer = none) (small : timer < UINTPTR_MAX) (t : Timer) :
    Sound batch [] ({s with heap := Function.update s.heap timer (some t)}.insert timer t) := by
  have absent : ∀ {e : Entry}, e ∈ s.timers ∨ e ∈ batch → e.timer ≠ timer := by
    intro e member same
    obtain ⟨_,found,_⟩ := old.live member
    rw [same,vacant] at found
    cases found
  refine ⟨fun other => ?_,fun other member => ?_,?_,old.once,?_,old.unfaulted⟩
  · change other ∈ s.timers.insert _ ∨ _ ↔ _
    rw [OrderedSet.mem_insert,or_assoc]
    by_cases same : other.timer = timer
    · simp only [insert,same,Function.update_self]
      constructor
      · rintro (rfl | member)
        · exact ⟨t,rfl,rfl⟩
        · exact absurd same (absent member)
      · intro given
        obtain ⟨_,found,expiration⟩ := given
        cases found
        exact .inl (entry_eq expiration.symm same)
    · simp only [insert,Function.update_of_ne same,← old.homes other]
      exact or_iff_right fun equal => same (equal ▸ rfl)
  · change other ∉ s.timers.insert _
    rw [OrderedSet.mem_insert]
    rintro (rfl | found)
    · exact absent (.inr member) rfl
    · exact old.apart other member found
  · intro other q
    simp only [insert,Finset.mem_insert,Prod.mk.injEq,OrderedSet.mem_insert,List.not_mem_nil,or_false]
    by_cases same : other = timer
    · rw [same,Function.update_self]
      constructor
      · rintro (⟨_,rfl⟩ | member)
        · exact ⟨t,rfl,rfl,.inl rfl⟩
        · obtain ⟨_,found,_⟩ := (old.active _ _).mp member
          rw [vacant] at found
          cases found
      · intro given
        obtain ⟨_,found,rfl,_⟩ := given
        cases found
        exact .inl ⟨rfl,rfl⟩
    · rw [Function.update_of_ne same,old.active]
      simp [same]
  · intro other u found
    rcases Ledger.update_some found with ⟨rfl,_⟩ | ⟨_,there⟩
    · exact small
    · exact old.low other u there

-- A cancelled Timer leaves both sets and goes.
theorem erase (old : Sound batch [] s) (found : s.heap timer = some t)
    (member : (timer,t.sequence) ∈ s.activeTimers) :
    Sound batch [] {s with
      timers := s.timers.erase ⟨t.expiration,timer⟩
      activeTimers := s.activeTimers.erase (timer,t.sequence)
      heap := Function.update s.heap timer none} := by
  have listed : (⟨t.expiration,timer⟩ : Entry) ∈ s.timers := by
    obtain ⟨_,same,_,listed⟩ := (old.active _ _).mp member
    cases found.symm.trans same
    exact listed.resolve_right List.not_mem_nil
  refine ⟨fun other => ?_,fun other inside => ?_,?_,old.once,?_,old.unfaulted⟩
  · dsimp only
    rw [OrderedSet.mem_erase]
    by_cases same : other.timer = timer
    · rw [same,Function.update_self]
      refine iff_of_false (fun inside => ?_) (by simp)
      have equal := old.distinct (inside.imp_left And.left) (.inl listed) same
      rcases inside with ⟨_,differ⟩ | taken
      · exact differ equal
      · exact old.apart _ taken (equal ▸ listed)
    · rw [Function.update_of_ne same,← old.homes other]
      have differ : other ≠ ⟨t.expiration,timer⟩ := fun equal => same (equal ▸ rfl)
      simp [differ]
  · exact fun kept => old.apart other inside (OrderedSet.mem_erase.mp kept).1
  · intro other q
    dsimp only
    rw [Finset.mem_erase,old.active]
    by_cases same : other = timer
    · rw [same,Function.update_self]
      refine iff_of_false ?_ (by simp)
      intro given
      obtain ⟨differ,u,here,sequence,_⟩ := given
      cases found.symm.trans here
      exact differ (Prod.ext rfl sequence.symm)
    · rw [Function.update_of_ne same]
      simp only [OrderedSet.mem_erase,List.not_mem_nil,or_false]
      constructor
      · intro given
        obtain ⟨_,u,here,sequence,inside⟩ := given
        exact ⟨u,here,sequence,inside,fun equal => same (Entry.mk.inj equal).2⟩
      · intro given
        obtain ⟨u,here,sequence,inside,_⟩ := given
        exact ⟨fun equal => same (Prod.mk.inj equal).1,u,here,sequence,inside⟩
  · intro other u here
    exact old.low other u (Ledger.update_none here).2

-- timers_ is cut at lower_bound.
theorem cut (old : Sound [] [] s) (last : Entry) :
    Sound (s.timers.below last) (s.timers.below last) {s with timers := s.timers.above last} := by
  have parts : ∀ e, e ∈ s.timers ↔ e ∈ s.timers.above last ∨ e ∈ s.timers.below last := by
    intro e
    rw [OrderedSet.mem_above,OrderedSet.mem_below]
    tauto
  refine ⟨fun e => ?_,fun e below above => ?_,fun timer q => ?_,OrderedSet.below_nodup,old.low,old.unfaulted⟩
  · rw [← parts,← old.homes e]
    simp
  · exact (OrderedSet.mem_above.mp above).2 (OrderedSet.mem_below.mp below).2
  · rw [old.active]
    simp [parts]

theorem deactivate (old : Sound batch (e :: rest) s) (once : (e :: rest).Nodup) (inside : e ∈ batch) :
    Sound batch rest (s.deactivate e) := by
  obtain ⟨t,found,expiration⟩ := old.live (.inr inside)
  have entry := old.unique (.inr inside) found
  unfold TimerQueue.deactivate
  rw [deref_some found]
  refine ⟨old.homes,old.apart,fun timer q => ?_,old.once,old.low,old.unfaulted⟩
  dsimp only
  rw [Finset.mem_erase,old.active]
  by_cases same : timer = e.timer
  · rw [same]
    refine iff_of_false ?_ ?_
    · intro given
      obtain ⟨differ,u,here,sequence,_⟩ := given
      cases found.symm.trans here
      exact differ (Prod.ext rfl sequence.symm)
    · intro given
      obtain ⟨u,here,_,listed⟩ := given
      cases found.symm.trans here
      rw [entry] at listed
      exact listed.elim (old.apart e inside) (List.nodup_cons.mp once).1
  · have differ : ∀ u : Timer, (⟨u.expiration,timer⟩ : Entry) ≠ e := fun u equal => same (equal ▸ rfl)
    simp [differ,same]

theorem deactivates (old : Sound batch pending s) (once : pending.Nodup) (inside : ∀ e ∈ pending, e ∈ batch) :
    Sound batch [] (pending.foldl TimerQueue.deactivate s) := by
  induction pending generalizing s with
  | nil => exact old
  | cons e rest ih =>
    have next := old.deactivate once (inside e List.mem_cons_self)
    exact ih next (List.nodup_cons.mp once).2 fun other later => inside other (List.mem_cons_of_mem _ later)

theorem getExpired (old : Sound [] [] s) (now : Int) : Sound (s.getExpired now).2 [] (s.getExpired now).1 :=
  (old.cut _).deactivates OrderedSet.below_nodup fun _ same => same

-- Fields that no set is about.
theorem other (old : Sound batch pending s) (cancelingTimers : Finset (Nat × Nat)) (timerfd : Timerfd)
    (calling : Bool) (running : Option Batch) (used runs : List Nat) (cancels : List (Nat × Nat))
    (deleted : List Nat) :
    Sound batch pending {s with
      cancelingTimers := cancelingTimers
      timerfd := timerfd
      callingExpiredTimers := calling
      batch := running
      used := used
      runs := runs
      cancels := cancels
      deleted := deleted} :=
  ⟨old.homes,old.apart,old.active,old.once,old.low,old.unfaulted⟩

-- cancelInLoop takes out the Timer with both the address and the sequence
-- number, or leaves every set and every Timer as they are.
theorem cancelInLoop (old : Sound batch [] s) (timer q : Nat) :
    (∃ t, s.heap timer = some t ∧ t.sequence = q ∧ (timer,t.sequence) ∈ s.activeTimers ∧
      s.cancelInLoop timer q = {s with
        timers := s.timers.erase ⟨t.expiration,timer⟩
        activeTimers := s.activeTimers.erase (timer,t.sequence)
        heap := Function.update s.heap timer none
        deleted := s.deleted ++ [t.sequence]}) ∨
    ((timer,q) ∉ s.activeTimers ∧ s.cancelInLoop timer q = {s with
      cancelingTimers := if s.callingExpiredTimers then Insert.insert (timer,q) s.cancelingTimers else s.cancelingTimers}) := by
  unfold TimerQueue.cancelInLoop
  split
  · rename_i member
    obtain ⟨t,found,rfl,_⟩ := (old.active _ _).mp member
    refine .inl ⟨t,found,rfl,member,?_⟩
    rw [deref_some found]
    refine delete_some ?_
    exact found
  · rename_i absent
    refine .inr ⟨absent,?_⟩
    split <;> rfl

theorem rearm (old : Sound batch pending s) (clock : Int) :
    ∃ timerfd, s.rearm clock = {s with timerfd := timerfd} := by
  unfold TimerQueue.rearm
  split
  · exact ⟨s.timerfd,rfl⟩
  · rename_i front found
    obtain ⟨t,live,_⟩ := old.live (.inl (OrderedSet.first_mem found))
    rw [deref_some live]
    split
    · exact ⟨_,rfl⟩
    · exact ⟨s.timerfd,rfl⟩

-- A Timer of the batch goes back or is deleted.
theorem settle (old : Sound (e :: rest) [] s) : Sound rest [] (s.resetOne e) := by
  obtain ⟨t,found,_⟩ := old.live (.inr List.mem_cons_self)
  rw [resetOne_some found]
  split
  · have placed := old.evict.place (Function.update_self _ _ _) (old.low _ _ found) t.restart
    simpa only [Function.update_idem] using placed
  · exact old.evict.other _ _ _ _ _ _ _ _

end Sound
end NewMuduo.TimerQueue
