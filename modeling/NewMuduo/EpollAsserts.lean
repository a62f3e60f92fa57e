import NewMuduo.EpollInterest

namespace NewMuduo.EPollPoller
variable {ι : Type} {i j : ι} {fd : ι → Nat} {et : ι → Bool} {s after : Loop ι} {labels : List (ι × Op)}

-- The asserts of updateChannel, by the branch that makes them.
def updateAsserts (p : EPollPoller ι) (ptr : ι) (c : Channel) : Prop :=
  if c.index < 0 then p.channels c.fd = none
  else p.channels c.fd ≠ none ∧ p.channels c.fd = some ptr

-- The asserts of removeChannel. n is the number of entries that erase finds.
def removeAsserts (p : EPollPoller ι) (ptr : ι) (c : Channel) : Prop :=
  let n := if (p.channels c.fd).isSome then 1 else 0
  p.channels c.fd ≠ none ∧ p.channels c.fd = some ptr ∧ c.isNoneEvent = true ∧ (c.index = 1 ∨ c.index = 2) ∧ n = 1

def Asserted (s : Loop ι) : ι × Op → Prop
  | (i,.request op) => s.poller.updateAsserts i ((s.channel i).request op)
  | (i,.remove) => s.poller.removeAsserts i (s.channel i)

-- An operation on a channel that is new to the loop or still wants some event.
def StillListens (s : Loop ι) : ι × Op → Prop
  | (i,.request _) => (s.channel i).addedToLoop = true → (s.channel i).events ≠ kNoneEvent
  | (_,.remove) => False

-- What a run of operations on channels that still want events keeps.
structure Listed (fd : ι → Nat) (s : Loop ι) : Prop where
  descriptor : ∀ i, (s.channel i).fd = fd i
  fresh : ∀ i, (s.channel i).addedToLoop = false → (s.channel i).index < 0 ∧ s.poller.channels (fd i) = none
  entry : ∀ i, (s.channel i).addedToLoop = true → s.poller.channels (fd i) = some i
  index : ∀ i, (s.channel i).addedToLoop = true → (0 ≤ (s.channel i).index ↔ (s.channel i).events ≠ kNoneEvent)

def enables : Op → Prop
  | .request op => op = .enableReading ∨ op = .enableWriting
  | .remove => False

theorem listed_start : Listed fd ⟨fun i => {Channel.new (fd i) with et := et i},.new⟩ :=
  ⟨fun _ => rfl,fun _ _ => ⟨(by decide : (-1 : Int) < 0),rfl⟩,fun _ added => (by cases added),fun _ added => (by cases added)⟩

-- On a listed channel the asserts see exactly whether it has lost its events.
theorem Listed.asserted_iff (old : Listed fd s) (begins : (s.channel i).addedToLoop = false → enables op) :
    Asserted s (i,op) ↔ StillListens s (i,op) := by
  have here := old.descriptor i
  cases op with
  | request op =>
    simp only [Asserted,StillListens,updateAsserts,Channel.request_index,Channel.request_fd,here]
    cases added : (s.channel i).addedToLoop with
    | false =>
      obtain ⟨negative,absent⟩ := old.fresh i added
      simp [negative,absent]
    | true =>
      have entry := old.entry i added
      have index := old.index i added
      rw [entry]
      split
      · rename_i negative
        have empty : (s.channel i).events = kNoneEvent := by
          by_contra some
          have known := index.mpr some
          omega
        simp [empty]
      · rename_i known
        have some := index.mp (by omega)
        simp [some]
  | remove =>
    refine iff_of_false ?_ id
    intro asserts
    obtain ⟨_,_,none,index,_⟩ := asserts
    have added : (s.channel i).addedToLoop = true := by
      cases here : (s.channel i).addedToLoop with
      | true => rfl
      | false => exact (begins here).elim
    exact (old.index i added).mp (by omega) (Channel.isNoneEvent_iff.mp none)

-- What is left to show after one channel has changed concerns the channel itself.
theorem Listed.change (distinct : Function.Injective fd) (old : Listed fd s) (changed : Changed fd s after i)
    (descriptor : (after.channel i).fd = fd i) (added : (after.channel i).addedToLoop = true)
    (entry : after.poller.channels (fd i) = some i)
    (index : 0 ≤ (after.channel i).index ↔ (after.channel i).events ≠ kNoneEvent) : Listed fd after := by
  refine ⟨?_,?_,?_,?_⟩ <;> intro j
  all_goals by_cases same : j = i
  · exact same ▸ descriptor
  · exact (congrArg Channel.fd (changed.others j same)).trans (old.descriptor j)
  · subst same
    exact fun unadded => by cases added.symm.trans unadded
  · rw [changed.others j same,changed.channels _ fun equal => same (distinct equal)]
    exact old.fresh j
  · exact fun _ => same ▸ entry
  · rw [changed.others j same,changed.channels _ fun equal => same (distinct equal)]
    exact old.entry j
  · exact fun _ => same ▸ index
  · rw [changed.others j same]
    exact old.index j

variable [DecidableEq ι]

theorem Listed.request (distinct : Function.Injective fd) (old : Listed fd s) (op : Channel.Op)
    (begins : (s.channel i).addedToLoop = false → enables (.request op))
    (listens : StillListens s (i,.request op)) :
    Listed fd (s.apply i (s.poller.updateChannel i ((s.channel i).request op))) := by
  have here : ((s.channel i).request op).fd = fd i := old.descriptor i
  have changed := request_changed s i op here
  by_cases negative : (s.channel i).index < 0
  · have nonempty : op.interest (s.channel i).events ≠ kNoneEvent := by
      cases added : (s.channel i).addedToLoop with
      | false => exact Channel.enables_nonempty (begins added) _
      | true =>
        have known := (old.index i added).mpr (listens added)
        omega
    rw [updateChannel_add i ((s.channel i).request op) negative,here] at changed ⊢
    refine old.change distinct changed ?_ ?_ ?_ ?_
    · simp [Loop.apply]
    · simp [Loop.apply,Channel.request]
    · simp [Loop.apply]
    · simp [Loop.apply,nonempty]
  · have added : (s.channel i).addedToLoop = true := by
      cases added : (s.channel i).addedToLoop with
      | true => rfl
      | false => exact absurd (old.fresh i added).1 negative
    have entry := old.entry i added
    by_cases empty : op.interest (s.channel i).events = kNoneEvent
    · rw [updateChannel_del i ((s.channel i).request op) (by simpa using negative) empty,here] at changed ⊢
      refine old.change distinct changed ?_ ?_ entry ?_
      · simp [Loop.apply]
      · simp [Loop.apply,Channel.request]
      · simp [Loop.apply,empty]
    · rw [updateChannel_mod i ((s.channel i).request op) (by simpa using negative) empty,here] at changed ⊢
      refine old.change distinct changed ?_ ?_ entry ?_
      · simp [Loop.apply]
      · simp [Loop.apply,Channel.request]
      · simp [Loop.apply,empty]

-- The operations of a run on one channel.
def ops (labels : List (ι × Op)) (i : ι) : List Op := (labels.filter (·.1 = i)).map (·.2)

theorem ops_cons_same (op : Op) : ops ((i,op) :: labels) i = op :: ops labels i := by simp [ops]

theorem ops_cons_other (op : Op) (apart : j ≠ i) : ops ((i,op) :: labels) j = ops labels j := by
  simp [ops,Ne.symm apart]

-- The induction is on the rest of the run: a channel that is new to the loop
-- has its whole life before it.
theorem meets_asserted_iff (distinct : Function.Injective fd) (old : Listed fd s)
    (begins : ∀ i, (s.channel i).addedToLoop = false → ∀ op ∈ (ops labels i).head?, enables op) :
    (channelOps fd et).Meets Asserted s labels ↔ (channelOps fd et).Meets StillListens s labels := by
  induction labels generalizing s with
  | nil => rfl
  | cons label rest ih =>
    obtain ⟨i,op⟩ := label
    have first : (s.channel i).addedToLoop = false → enables op := fun new => begins i new op (by simp [ops_cons_same])
    refine (and_congr_left' (old.asserted_iff first)).trans (and_congr_right fun listens => ?_)
    refine forall_congr' fun after => forall_congr' fun taken => ?_
    cases op with
    | remove => exact listens.elim
    | request op =>
      cases Option.some.inj taken
      refine ih (old.request distinct op first listens) fun j new => ?_
      by_cases same : j = i
      · subst same
        simp [Loop.apply,Channel.request] at new
      · simp only [Loop.apply,Function.update_of_ne same] at new
        have later := begins j new
        rwa [ops_cons_other _ same] at later

theorem listens_never_removes (met : (channelOps fd et).Meets StillListens s labels) (i : ι) : (i,.remove) ∉ labels := by
  induction labels generalizing s with
  | nil => exact List.not_mem_nil
  | cons label rest ih =>
    obtain ⟨j,op⟩ := label
    cases op with
    | remove => exact met.1.elim
    | request op =>
      have tail := ih (met.2 _ rfl)
      intro member
      rcases List.mem_cons.mp member with same | later
      · cases same
      · exact tail later

-- From the first enable operation to disableAll and remove.
def Life (ops : List Op) : Prop :=
  ∃ (first : Channel.Op) (middle : List Channel.Op), enables (.request first) ∧ Channel.Op.disableAll ∉ middle ∧
    ops = .request first :: (middle.map .request ++ [.request .disableAll,.remove])

theorem Life.begins (life : Life (ops labels i)) : ∀ op ∈ (ops labels i).head?, enables op := by
  obtain ⟨first,middle,enabling,_,same⟩ := life
  intro op found
  rw [same] at found
  cases found
  exact enabling

theorem Life.ends (life : Life (ops labels i)) : (i,.remove) ∈ labels := by
  obtain ⟨first,middle,_,_,same⟩ := life
  have member : Op.remove ∈ ops labels i := by
    rw [same]
    simp
  obtain ⟨⟨j,op⟩,found,rfl⟩ := List.mem_map.mp member
  obtain ⟨listed,mine⟩ := List.mem_filter.mp found
  have same : j = i := of_decide_eq_true mine
  exact same ▸ listed

-- However the lives of the channels interleave, an assert fails: a channel
-- that has lost its events has index -1 and stays in channels_.
theorem every_life_fails_an_assert (distinct : Function.Injective fd) (et : ι → Bool) (labels : List (ι × Op))
    (lives : ∀ i, Life (ops labels i)) (i : ι) :
    ¬(channelOps fd et).Meets Asserted ⟨fun i => {Channel.new (fd i) with et := et i},.new⟩ labels := by
  intro met
  have listens := (meets_asserted_iff distinct listed_start fun j _ => (lives j).begins).mp met
  exact listens_never_removes listens i (lives i).ends

theorem two_lives_fail_an_assert : ¬(channelOps (fun i : Bool => if i then 5 else 6) fun i => i).Meets Asserted
    ⟨fun i => {Channel.new (if i then 5 else 6) with et := i},.new⟩
    [(true,.request .enableReading),(false,.request .enableWriting),(true,.request .enableWriting),
      (true,.request .disableAll),(false,.request .disableAll),(false,.remove),(true,.remove)] := by
  have distinct : Function.Injective fun i : Bool => if i then 5 else 6 := by
    intro i j same; cases i <;> cases j <;> simp_all
  refine every_life_fails_an_assert distinct _ _ (fun i => ?_) true
  cases i
  · exact ⟨.enableWriting,[],.inr rfl,by decide,by decide⟩
  · exact ⟨.enableReading,[.enableWriting],.inl rfl,by decide,by decide⟩

-- disableAll and remove on a channel that reads, and startRead after stopRead.
theorem asserts_fail_on_close_and_on_restart :
    Life (ops [((),.request .enableReading),((),.request .disableAll),((),.remove)] ()) ∧
    ¬(channelOps (fun _ => 5) fun _ => true).Meets Asserted ⟨fun _ => Channel.new 5,.new⟩
      [((),.request .enableReading),((),.request .disableAll),((),.remove)] ∧
    ¬(channelOps (fun _ => 5) fun _ => true).Meets Asserted ⟨fun _ => Channel.new 5,.new⟩
      [((),.request .enableReading),((),.request .disableReading),((),.request .enableReading)] := by
  refine ⟨⟨.enableReading,[],.inl rfl,by decide,by decide⟩,fun met => ?_,fun met => ?_⟩
  · obtain ⟨_,_,_,index,_⟩ := ((met.2 _ rfl).2 _ rfl).1
    exact absurd index (by decide)
  · have entry := ((met.2 _ rfl).2 _ rfl).1
    cases entry

end NewMuduo.EPollPoller
