import NewMuduo.EpollPoller

namespace NewMuduo.EPollPoller
variable {ι : Type} {i : ι} {fd : ι → Nat} {et : ι → Bool}

-- The channels of one loop and its poller.
structure Loop (ι : Type) where
  channel : ι → Channel
  poller : EPollPoller ι

inductive Op where
  | request (op : Channel.Op)
  | remove
  deriving DecidableEq, Repr

-- What an operation leaves of events_.
def Op.interest (events : BitVec 32) : Op → BitVec 32
  | .request op => op.interest events
  | .remove => events

variable [DecidableEq ι]

def Loop.apply (s : Loop ι) (i : ι) (result : EPollPoller ι × Channel) : Loop ι :=
  ⟨Function.update s.channel i result.2,result.1⟩

-- remove is called on a channel without events only.
def channelOps (fd : ι → Nat) (et : ι → Bool) : Machine (Loop ι) (ι × Op) where
  start s := s = ⟨fun i => {Channel.new (fd i) with et := et i},.new⟩
  next s
    | (i,.request op) => some (s.apply i (s.poller.updateChannel i ((s.channel i).request op)))
    | (i,.remove) =>
      if (s.channel i).isNoneEvent then some (s.apply i (s.poller.remove i (s.channel i))) else none

-- The kernel's list is channels_ without the channels that want nothing, each
-- under its current mask.
def Agrees (s : Loop ι) : Prop :=
  ∀ fd, s.poller.interest fd = (s.poller.channels fd).bind fun i =>
    if (s.channel i).events = kNoneEvent then none else some ⟨mask (s.channel i),i⟩

-- An operation that leaves no events is made on a registered channel.
def Registered (s : Loop ι) : ι × Op → Prop
  | (_,.remove) => True
  | (i,.request op) => 0 ≤ (s.channel i).index ∨ op.interest (s.channel i).events ≠ kNoneEvent

structure Tracked (fd : ι → Nat) (s : Loop ι) : Prop where
  agrees : Agrees s
  descriptor : ∀ i, (s.channel i).fd = fd i
  own : ∀ f i, s.poller.channels f = some i → f = fd i
  registered : ∀ i, 0 ≤ (s.channel i).index ↔ (s.channel i).events ≠ kNoneEvent
  mapped : ∀ i, (s.channel i).events ≠ kNoneEvent → s.poller.channels (fd i) = some i

omit [DecidableEq ι] in
theorem tracked_start : Tracked fd ⟨fun i => {Channel.new (fd i) with et := et i},.new⟩ :=
  ⟨fun _ => rfl,fun _ => rfl,fun _ _ found => (by cases found),fun _ => by simp [Channel.new],
    fun _ nonempty => absurd rfl nonempty⟩

-- One channel changes: its descriptor's two entries are the new ones and the
-- others are as they were.
structure Changed (fd : ι → Nat) (s after : Loop ι) (i : ι) : Prop where
  others : ∀ j, j ≠ i → after.channel j = s.channel j
  channels : ∀ f, f ≠ fd i → after.poller.channels f = s.poller.channels f
  interest : ∀ f, f ≠ fd i → after.poller.interest f = s.poller.interest f

theorem apply_changed (s : Loop ι) (i : ι) (result : EPollPoller ι × Channel)
    (channels : ∀ f, f ≠ fd i → result.1.channels f = s.poller.channels f)
    (interest : ∀ f, f ≠ fd i → result.1.interest f = s.poller.interest f) :
    Changed fd s (s.apply i result) i :=
  ⟨fun _ other => Function.update_of_ne other _ _,channels,interest⟩

theorem request_changed (s : Loop ι) (i : ι) (op : Channel.Op) (here : ((s.channel i).request op).fd = fd i) :
    Changed fd s (s.apply i (s.poller.updateChannel i ((s.channel i).request op))) i := by
  refine apply_changed s i _ (fun f other => ?_) fun f other => ?_
  · exact (updateChannel_elsewhere s.poller i _ (here ▸ other)).1
  · exact (updateChannel_elsewhere s.poller i _ (here ▸ other)).2

-- What is left to show after such a change concerns the channel itself.
theorem Tracked.change (distinct : Function.Injective fd) (old : Tracked fd s) (changed : Changed fd s after i)
    (descriptor : (after.channel i).fd = fd i)
    (entry : after.poller.channels (fd i) = none ∨ after.poller.channels (fd i) = some i)
    (registered : 0 ≤ (after.channel i).index ↔ (after.channel i).events ≠ kNoneEvent)
    (mapped : (after.channel i).events ≠ kNoneEvent → after.poller.channels (fd i) = some i)
    (agrees : after.poller.interest (fd i) =
      if (after.channel i).events = kNoneEvent then none else some ⟨mask (after.channel i),i⟩) :
    Tracked fd after := by
  refine ⟨fun f => ?_,fun j => ?_,fun f j found => ?_,fun j => ?_,fun j => ?_⟩
  · by_cases here : f = fd i
    · subst here
      rw [agrees]
      rcases entry with gone | kept
      · have empty : (after.channel i).events = kNoneEvent := by
          by_contra some
          rw [mapped some] at gone
          cases gone
        simp [gone,empty]
      · simp [kept]
    · rw [changed.interest f here,changed.channels f here,old.agrees f]
      cases found : s.poller.channels f with
      | none => rfl
      | some j =>
        have other : j ≠ i := fun same => here (same ▸ old.own f j found)
        simp [changed.others j other]
  · by_cases same : j = i
    · rw [same]; exact descriptor
    · rw [changed.others j same]; exact old.descriptor j
  · by_cases here : f = fd i
    · rw [here] at found ⊢
      rcases entry with gone | kept
      · rw [gone] at found; cases found
      · rw [kept] at found; cases Option.some.inj found; rfl
    · rw [changed.channels f here] at found
      exact old.own f j found
  · by_cases same : j = i
    · rw [same]; exact registered
    · rw [changed.others j same]; exact old.registered j
  · by_cases same : j = i
    · rw [same]; exact mapped
    · rw [changed.others j same,changed.channels _ fun equal => same (distinct equal)]
      exact old.mapped j

theorem request_tracked (distinct : Function.Injective fd) (old : Tracked fd s) (op : Channel.Op)
    (met : Registered s (i,.request op)) :
    Tracked fd (s.apply i (s.poller.updateChannel i ((s.channel i).request op))) := by
  have here : ((s.channel i).request op).fd = fd i := old.descriptor i
  have changed := request_changed s i op here
  by_cases fresh : (s.channel i).index < 0
  · have nonempty : op.interest (s.channel i).events ≠ kNoneEvent := met.resolve_left (by omega)
    rw [updateChannel_add i ((s.channel i).request op) fresh,here] at changed ⊢
    refine old.change distinct changed ?_ (.inr ?_) ?_ ?_ ?_
    · simp [Loop.apply]
    · simp [Loop.apply]
    · simp [Loop.apply,nonempty]
    · simp [Loop.apply]
    · simp [Loop.apply,nonempty]; rfl
  · have known : 0 ≤ (s.channel i).index := by omega
    have entry := old.mapped i ((old.registered i).mp known)
    by_cases empty : op.interest (s.channel i).events = kNoneEvent
    · rw [updateChannel_del i ((s.channel i).request op) known empty,here] at changed ⊢
      refine old.change distinct changed ?_ (.inr entry) ?_ ?_ ?_
      · simp [Loop.apply]
      · simp [Loop.apply,empty]
      · exact fun _ => entry
      · simp [Loop.apply,empty]
    · rw [updateChannel_mod i ((s.channel i).request op) known empty,here] at changed ⊢
      refine old.change distinct changed ?_ (.inr entry) ?_ ?_ ?_
      · simp [Loop.apply]
      · simp [Loop.apply,empty]
      · exact fun _ => entry
      · simp [Loop.apply,empty]; rfl

theorem remove_tracked (distinct : Function.Injective fd) (old : Tracked fd s)
    (empty : (s.channel i).events = kNoneEvent) : Tracked fd (s.apply i (s.poller.remove i (s.channel i))) := by
  have fresh : (s.channel i).index < 0 := by
    by_contra known
    exact (old.registered i).mp (by omega) empty
  have unlisted : s.poller.interest (fd i) = none := by
    rw [old.agrees]
    cases found : s.poller.channels (fd i) with
    | none => rfl
    | some j =>
      have same : j = i := distinct (old.own _ _ found).symm
      simp [same,empty]
  rw [remove_unregistered i fresh,old.descriptor i]
  refine old.change distinct (apply_changed s i _ ?_ ?_) ?_ (.inl ?_) ?_ ?_ ?_
  · exact fun f other => Function.update_of_ne other _ _
  · exact fun f other => rfl
  · simp [Loop.apply]
  · simp [Loop.apply]
  · simp [Loop.apply,empty]
  · exact fun some => absurd (by simpa [Loop.apply] using empty) some
  · simpa [Loop.apply,empty] using unlisted

theorem step_tracked (distinct : Function.Injective fd) (old : Tracked fd s) (met : Registered s label)
    (taken : (channelOps fd et).next s label = some after) : Tracked fd after := by
  obtain ⟨i,op⟩ := label
  cases op with
  | request op => cases Option.some.inj taken; exact request_tracked distinct old op met
  | remove =>
    simp only [channelOps] at taken
    split at taken
    · rename_i empty
      cases Option.some.inj taken
      exact remove_tracked distinct old (Channel.isNoneEvent_iff.mp empty)
    · cases taken

-- EPOLL_CTL_ADD with an empty mask: the kernel still lists the descriptor.
theorem step_broken (old : Tracked fd s) (missed : ¬Registered s label)
    (taken : (channelOps fd et).next s label = some after) : ¬Agrees after := by
  obtain ⟨i,op⟩ := label
  cases op with
  | remove => exact absurd trivial missed
  | request op =>
    have parts : (s.channel i).index < 0 ∧ op.interest (s.channel i).events = kNoneEvent := by
      simpa [Registered] using missed
    have here : ((s.channel i).request op).fd = fd i := old.descriptor i
    cases Option.some.inj taken
    rw [updateChannel_add i ((s.channel i).request op) parts.1,here]
    intro agrees
    have entry := agrees (fd i)
    simp [Loop.apply,parts.2] at entry

theorem remove_unmaps (old : ∀ j, (s.channel j).fd = fd j)
    (taken : (channelOps fd et).next s (i,.remove) = some after) : after.poller.channels (fd i) = none := by
  simp only [channelOps] at taken
  split at taken
  · cases Option.some.inj taken
    change (s.poller.remove i (s.channel i)).1.channels (fd i) = none
    rw [remove_channels,old i,Function.update_self]
  · cases taken

-- The kernel's list is right in every state of a run exactly when no operation
-- of the run leaves an unregistered channel without events; and in such a run
-- a removed channel's descriptor is not in the list.
theorem interest_agrees_iff_registered (distinct : Function.Injective fd) (et : ι → Bool)
    (labels : List (ι × Op)) (s : Loop ι)
    (ran : (channelOps fd et).run ⟨fun i => {Channel.new (fd i) with et := et i},.new⟩ labels = some s) :
    ((channelOps fd et).Throughout Agrees ⟨fun i => {Channel.new (fd i) with et := et i},.new⟩ labels ↔
      (channelOps fd et).Meets Registered ⟨fun i => {Channel.new (fd i) with et := et i},.new⟩ labels) ∧
    ((channelOps fd et).Meets Registered ⟨fun i => {Channel.new (fd i) with et := et i},.new⟩ labels →
      ∀ i after, (channelOps fd et).next s (i,.remove) = some after → after.poller.interest (fd i) = none) := by
  have kept : ∀ s label after, Tracked fd s → Registered s label → (channelOps fd et).next s label = some after →
      Tracked fd after := fun _ _ _ old met taken => step_tracked distinct old met taken
  have exact_run := Machine.throughout_iff_meets (fun _ old => old.agrees) kept
    (fun _ _ _ old missed taken => step_broken old missed taken) tracked_start ran
  refine ⟨exact_run,fun met i after taken => ?_⟩
  have tracked := Machine.run_meets kept tracked_start met ran
  have removed := kept s (i,.remove) after tracked trivial taken
  rw [removed.agrees,remove_unmaps tracked.descriptor taken]
  rfl

theorem interest_agrees_iff_registered_two :
    (channelOps (fun i : Bool => if i then 5 else 6) fun i => i).Throughout Agrees
      ⟨fun i => {Channel.new (if i then 5 else 6) with et := i},.new⟩
      [(true,.request .enableReading),(false,.request .enableWriting),(true,.request .disableAll),(true,.remove)] := by
  have distinct : Function.Injective fun i : Bool => if i then 5 else 6 := by
    intro i j same; cases i <;> cases j <;> simp_all
  refine (interest_agrees_iff_registered distinct (fun i => i) _ _ rfl).1.mpr ?_
  refine ⟨.inr (by decide),fun _ first => ?_⟩
  cases first
  refine ⟨.inr (by decide),fun _ second => ?_⟩
  cases second
  refine ⟨.inl (by decide),fun _ third => ?_⟩
  cases third
  exact ⟨trivial,fun _ _ => trivial⟩

-- stopRead, then the disableAll of handleClose, then remove.
theorem stale_entry_after_remove : ∃ s : Loop Unit,
    (channelOps (fun _ => 5) fun _ => true).run ⟨fun _ => Channel.new 5,.new⟩
      [((),.request .enableReading),((),.request .disableReading),((),.request .disableAll),((),.remove)] = some s ∧
    s.poller.channels 5 = none ∧ s.poller.interest 5 = some ⟨EPOLLET,()⟩ ∧ ¬Agrees s := by
  refine ⟨_,rfl,rfl,rfl,fun agrees => ?_⟩
  have entry := agrees 5
  cases entry

end NewMuduo.EPollPoller
