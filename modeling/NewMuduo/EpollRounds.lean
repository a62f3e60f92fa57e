import NewMuduo.EpollInterest
import NewMuduo.RoundRobin
import NewMuduo.Simulation
import Mathlib.Data.Fintype.Card

namespace NewMuduo.EPollPoller
variable {ι : Type} {i : ι} {fd : ι → Nat} {et : ι → Bool} {f p most : Nat}

def kInitEventListSize : Nat := 16

-- The channels and the poller of one loop with the kernel's list of ready
-- descriptors; events is the size of events_.
structure Polling (ι : Type) where
  loop : Loop ι
  ready : List Nat
  events : Nat
  activeChannels : List ι
  revents : ι → BitVec 32

namespace Polling
variable {s after : Polling ι} {happened : Nat → BitVec 32}

def new (fd : ι → Nat) (et : ι → Bool) : Polling ι where
  loop := ⟨fun i => {Channel.new (fd i) with et := et i},.new⟩
  ready := []
  events := kInitEventListSize
  activeChannels := []
  revents _ := 0

def entry (s : Polling ι) (f : Nat) : Option (Interest ι) := s.loop.poller.interest f

-- epoll_wait goes round robin: it takes what is at the front, as much as fits
-- into events_, and what is not edge-triggered goes to the back.
def served (s : Polling ι) : List Nat := s.ready.take s.events

def again (s : Polling ι) (f : Nat) : Bool := (s.entry f).any fun entry => !hasAny entry.events EPOLLET

def epoll_wait (s : Polling ι) : Polling ι := {s with ready := s.ready.drop s.events ++ s.served.filter s.again}

-- What it leaves in events_ of what has happened to the descriptors.
def event (s : Polling ι) (happened : Nat → BitVec 32) (f : Nat) : Option (Interest ι) :=
  (s.entry f).map fun entry => {entry with events := happened f}

def reported (s : Polling ι) (happened : Nat → BitVec 32) : List (Interest ι) := s.served.filterMap (s.event happened)

variable [DecidableEq ι]

def fillActiveChannels (s : Polling ι) (events : List (Interest ι)) : Polling ι :=
  {s with
    activeChannels := s.activeChannels ++ events.map Interest.ptr
    revents := events.foldl (fun revents event => Function.update revents event.ptr event.events) s.revents}

def poll (s : Polling ι) (happened : Nat → BitVec 32) : Polling ι :=
  let events := s.reported happened
  let numEvents := events.length
  let waited := s.epoll_wait
  if 0 < numEvents then
    {waited.fillActiveChannels events with events := if numEvents = s.events then s.events * 2 else s.events}
  else waited

-- Operations on the channels, the kernel's side, and the polls of the loop,
-- which may be interrupted.
inductive Label (ι : Type) where
  | op (i : ι) (op : Op)
  | arrives (f : Nat)
  | drained (f : Nat)
  | poll (happened : Nat → BitVec 32)
  | interrupted

def clear (s : Polling ι) : Polling ι := {s with activeChannels := []}

def next (fd : ι → Nat) (et : ι → Bool) (s : Polling ι) : Label ι → Option (Polling ι)
  | .op i op => ((channelOps fd et).next s.loop (i,op)).map fun loop =>
      {s with loop := loop,ready := s.ready.filter fun f => (loop.poller.interest f).isSome}
  | .arrives f => if (s.entry f).isSome = true ∧ f ∉ s.ready then some {s with ready := s.ready ++ [f]} else none
  | .drained f => some {s with ready := s.ready.filter fun g => g ≠ f}
  | .poll happened => some (s.clear.poll happened)
  | .interrupted => some s.clear

def machine (fd : ι → Nat) (et : ι → Bool) : Machine (Polling ι) (Label ι) where
  start s := s = new fd et
  next := next fd et

def Label.isPoll : Label ι → Bool
  | .poll _ => true
  | _ => false

-- What the loop goes through after a poll.
def hands (_ : Polling ι) : Label ι → Polling ι → List ι
  | .poll _,after => after.activeChannels
  | _,_ => []

-- No more than most descriptors are registered.
def AtMost (most : Nat) (s : Polling ι) : Prop := ∃ fds : Finset Nat, fds.card ≤ most ∧ ∀ f, (s.entry f).isSome = true → f ∈ fds

def Orderly (most : Nat) (s : Polling ι) : Label ι → Prop
  | .op i op => Registered s.loop (i,op)
  | .poll _ => AtMost most s
  | _ => True

-- Nothing but a poll takes the descriptor off the list.
def Keeps (fd : ι → Nat) (et : ι → Bool) (f : Nat) (s : Polling ι) : Label ι → Prop
  | .op i op => ∀ loop, (channelOps fd et).next s.loop (i,op) = some loop → (loop.poller.interest f).isSome = true
  | .drained g => f ≠ g
  | _ => True

structure Sound (fd : ι → Nat) (s : Polling ι) : Prop where
  tracked : Tracked fd s.loop
  once : s.ready.Nodup
  listed : ∀ f ∈ s.ready, (s.entry f).isSome = true

omit [DecidableEq ι] in
-- Behind an entry of the kernel's list stands a channel that wants something.
theorem Sound.channel (old : Sound fd s) {entry : Interest ι} (here : s.entry f = some entry) :
    fd entry.ptr = f ∧ s.loop.poller.channels f = some entry.ptr ∧ (s.loop.channel entry.ptr).events ≠ kNoneEvent := by
  have agrees := old.tracked.agrees f
  change s.entry f = _ at agrees
  rw [here] at agrees
  obtain ⟨i,mapped,wants⟩ := Option.bind_eq_some_iff.mp agrees.symm
  split at wants
  · cases wants
  · rename_i some
    cases wants
    exact ⟨(old.tracked.own f i mapped).symm,mapped,some⟩

omit [DecidableEq ι] in
theorem Sound.reported_fds (old : Sound fd s) (happened : Nat → BitVec 32) :
    ((s.reported happened).map Interest.ptr).map fd = s.served := by
  have each : ∀ fds : List Nat, (∀ f ∈ fds, (s.entry f).isSome = true) →
      ((fds.filterMap (s.event happened)).map Interest.ptr).map fd = fds := by
    intro fds listed
    induction fds with
    | nil => rfl
    | cons f rest ih =>
      obtain ⟨entry,here⟩ := Option.isSome_iff_exists.mp (listed f List.mem_cons_self)
      have later := ih fun g member => listed g (List.mem_cons_of_mem f member)
      have found : s.event happened f = some {entry with events := happened f} := by rw [event,here]; rfl
      rw [List.filterMap_cons_some found,List.map_cons,List.map_cons,later]
      exact congrArg (· :: rest) (old.channel here).1
  exact each s.served fun f member => old.listed f (List.mem_of_mem_take member)

omit [DecidableEq ι] in
theorem Sound.reported_length (old : Sound fd s) (happened : Nat → BitVec 32) : (s.reported happened).length = s.served.length := by
  rw [← old.reported_fds happened,List.length_map,List.length_map]

theorem poll_ready (s : Polling ι) (happened : Nat → BitVec 32) : (s.poll happened).ready = s.epoll_wait.ready := by
  unfold poll
  dsimp only
  split <;> rfl

theorem poll_loop (s : Polling ι) (happened : Nat → BitVec 32) : (s.poll happened).loop = s.loop := by
  unfold poll
  dsimp only
  split <;> rfl

theorem poll_events (s : Polling ι) (happened : Nat → BitVec 32) (room : 0 < s.events) : (s.poll happened).events =
    if (s.reported happened).length = s.events then s.events * 2 else s.events := by
  unfold poll
  dsimp only
  split
  · rfl
  · rename_i none
    rw [if_neg fun full => none (Nat.lt_of_lt_of_eq room full.symm)]
    rfl

theorem poll_active (s : Polling ι) (happened : Nat → BitVec 32) :
    (s.clear.poll happened).activeChannels = (s.reported happened).map Interest.ptr := by
  unfold poll
  dsimp only
  split
  · rfl
  · rename_i none
    have empty : s.reported happened = [] := List.eq_nil_of_length_eq_zero (Nat.eq_zero_of_not_pos none)
    rw [empty]
    rfl

omit [DecidableEq ι] in
theorem rotated_once (once : s.ready.Nodup) : s.epoll_wait.ready.Nodup := by
  have swapped : (s.ready.drop s.events ++ s.served).Nodup := by
    rw [List.nodup_append_comm,served,List.take_append_drop]
    exact once
  exact swapped.sublist (List.Sublist.append_left List.filter_sublist _)

omit [DecidableEq ι] in
theorem of_mem_rotated (member : f ∈ s.epoll_wait.ready) : f ∈ s.ready := by
  rcases List.mem_append.mp member with behind | back
  · exact List.mem_of_mem_drop behind
  · exact List.mem_of_mem_take (List.mem_of_mem_filter back)

theorem Sound.next (distinct : Function.Injective fd) (old : Sound fd s) {label : Label ι} (met : Orderly most s label)
    (taken : (machine fd et).next s label = some after) : Sound fd after := by
  cases label with
  | op i op =>
    obtain ⟨loop,performed,rfl⟩ := Option.map_eq_some_iff.mp taken
    exact ⟨step_tracked distinct old.tracked met performed,old.once.filter _,fun f member => (List.mem_filter.mp member).2⟩
  | arrives f =>
    simp only [machine,Polling.next] at taken
    split at taken <;> cases taken
    rename_i fresh
    refine ⟨old.tracked,?_,fun g member => ?_⟩
    · exact List.nodup_append.mpr ⟨old.once,List.nodup_singleton f,fun g here h there => by
        rintro rfl
        exact fresh.2 (List.mem_singleton.mp there ▸ here)⟩
    · rcases List.mem_append.mp member with before | new
      · exact old.listed g before
      · rw [List.mem_singleton.mp new]
        exact fresh.1
  | drained f =>
    cases taken
    exact ⟨old.tracked,old.once.filter _,fun g member => old.listed g (List.mem_of_mem_filter member)⟩
  | poll happened =>
    cases taken
    have loop := poll_loop s.clear happened
    have ready := poll_ready s.clear happened
    refine ⟨?_,?_,fun g member => ?_⟩
    · rw [loop]
      exact old.tracked
    · rw [ready]
      exact rotated_once (s := s.clear) old.once
    · rw [ready] at member
      unfold entry
      rw [loop]
      exact old.listed g (of_mem_rotated (s := s.clear) member)
  | interrupted =>
    cases taken
    exact ⟨old.tracked,old.once,old.listed⟩

-- events_ grows when as many descriptors were ready as it holds.
theorem Sound.bounded (old : Sound fd s) {label : Label ι} (met : Orderly most s label)
    (taken : (machine fd et).next s label = some after) (room : 0 < s.events ∧ s.events ≤ max kInitEventListSize (most * 2)) :
    0 < after.events ∧ after.events ≤ max kInitEventListSize (most * 2) := by
  cases label with
  | op i op =>
    obtain ⟨loop,_,rfl⟩ := Option.map_eq_some_iff.mp taken
    exact room
  | arrives f =>
    simp only [machine,Polling.next] at taken
    split at taken <;> cases taken
    exact room
  | drained f => cases taken; exact room
  | interrupted => cases taken; exact room
  | poll happened =>
    cases taken
    have grown := poll_events s.clear happened room.1
    rw [grown]
    split
    · rename_i full
      obtain ⟨fds,few,inside⟩ := met
      have length : s.served.length = s.events := (old.reported_length happened).symm.trans full
      have small : s.events ≤ most := by
        calc s.events = s.served.length := length.symm
          _ ≤ s.ready.length := List.length_take_le' s.events s.ready
          _ = s.ready.toFinset.card := (List.toFinset_card_of_nodup old.once).symm
          _ ≤ fds.card := Finset.card_le_card fun f member => inside f (old.listed f (List.mem_toFinset.mp member))
          _ ≤ most := few
      exact ⟨Nat.mul_pos room.1 Nat.two_pos,Nat.le_trans (Nat.mul_le_mul_right 2 small) (Nat.le_max_right _ _)⟩
    · exact room

-- A descriptor that stays on the list is handed out or moves up by a whole
-- window, which is doubled.
theorem Sound.moves_up (old : Sound fd s) (happened : Nat → BitVec 32) (room : 0 < s.events) (here : InLine p f s.ready) :
    (∃ i ∈ (s.clear.poll happened).activeChannels,fd i = f) ∨
    s.events ≤ p ∧ InLine (p - s.events) f (s.clear.poll happened).ready ∧ (s.clear.poll happened).events = s.events * 2 := by
  rcases here.served s.events with served | ⟨behind,more,place⟩
  · refine .inl ?_
    change f ∈ s.served at served
    rw [← old.reported_fds happened,← poll_active] at served
    exact List.mem_map.mp served
  · refine .inr ⟨behind,?_,?_⟩
    · rw [poll_ready]
      exact place.append _
    · have full : (s.clear.reported happened).length = s.clear.events := by
        have length : s.served.length = s.events := List.length_take_of_le (Nat.le_of_lt more)
        exact (old.reported_length happened).trans length
      rw [poll_events s.clear happened room,if_pos full]
      rfl

theorem Sound.handed (distinct : Function.Injective fd) (old : Sound fd s) (room : 0 < s.events ∧ s.events ≤ max kInitEventListSize (most * 2))
    (here : InLine p f s.ready) {labels : List (Label ι)} {final : Polling ι}
    (met : (machine fd et).Meets (fun s label => Orderly most s label ∧ Keeps fd et f s label) s labels)
    (ran : (machine fd et).run s labels = some final) (soon : p < s.events * (2 ^ labels.countP Label.isPoll - 1)) :
    ∃ i ∈ (machine fd et).trace hands s labels,fd i = f := by
  induction labels generalizing s p with
  | nil => exact absurd soon (Nat.not_lt_zero p)
  | cons label rest ih =>
    obtain ⟨middle,taken,later⟩ := Machine.run_cons_parts ran
    have next := old.next distinct met.1.1 taken
    have wide := old.bounded met.1.1 taken room
    rw [Machine.trace_cons taken]
    -- a label other than poll leaves the place and events_ as they were
    have goes : middle.events = s.events → label.isPoll = false → InLine p f middle.ready →
        ∃ i ∈ hands s label middle ++ (machine fd et).trace hands middle rest,fd i = f := by
      intro same other place
      rw [List.countP_cons_of_neg (by rw [other]; exact Bool.false_ne_true)] at soon
      obtain ⟨i,member,equal⟩ := ih next wide place (met.2 middle taken) later (same ▸ soon)
      exact ⟨i,List.mem_append_right _ member,equal⟩
    cases label with
    | op i op =>
      obtain ⟨loop,performed,rfl⟩ := Option.map_eq_some_iff.mp taken
      exact goes rfl rfl (here.filter (met.1.2 loop performed))
    | arrives g =>
      simp only [machine,Polling.next] at taken
      split at taken <;> cases taken
      exact goes rfl rfl (here.append [g])
    | drained g =>
      cases taken
      exact goes rfl rfl (here.filter (decide_eq_true met.1.2))
    | interrupted =>
      cases taken
      exact goes rfl rfl here
    | poll happened =>
      cases taken
      rcases old.moves_up happened room.1 here with ⟨i,member,equal⟩ | ⟨behind,place,doubled⟩
      · exact ⟨i,List.mem_append_left _ member,equal⟩
      · rw [List.countP_cons_of_pos rfl] at soon
        have closer := doubled_window behind soon
        rw [← doubled] at closer
        obtain ⟨i,member,equal⟩ := ih next wide place (met.2 _ rfl) later closer
        exact ⟨i,List.mem_append_right _ member,equal⟩

theorem fills_elsewhere (events : List (Interest ι)) (revents : ι → BitVec 32) (apart : i ∉ events.map Interest.ptr) :
    events.foldl (fun revents event => Function.update revents event.ptr event.events) revents i = revents i := by
  induction events generalizing revents with
  | nil => rfl
  | cons event rest ih =>
    rw [List.map_cons,List.mem_cons,not_or] at apart
    rw [List.foldl_cons,ih _ apart.2,Function.update_of_ne apart.1]

theorem fills (events : List (Interest ι)) (revents : ι → BitVec 32) (once : (events.map Interest.ptr).Nodup) :
    ∀ event ∈ events,
      events.foldl (fun revents event => Function.update revents event.ptr event.events) revents event.ptr = event.events := by
  induction events generalizing revents with
  | nil => exact fun _ absent => nomatch absent
  | cons event rest ih =>
    rw [List.map_cons,List.nodup_cons] at once
    intro other member
    rw [List.foldl_cons]
    rcases List.mem_cons.mp member with rfl | later
    · rw [fills_elsewhere rest _ once.1,Function.update_self]
    · exact ih _ once.2 other later

-- The asserts of fillActiveChannels, and what the handlers find.
structure Filled (s : Polling ι) (happened : Nat → BitVec 32) (after : Polling ι) : Prop where
  fits : after.activeChannels.length ≤ s.events
  once : after.activeChannels.Nodup
  mapped : ∀ i ∈ after.activeChannels, s.loop.poller.channels (s.loop.channel i).fd = some i
  wants : ∀ i ∈ after.activeChannels, (s.loop.channel i).isNoneEvent = false
  revents : ∀ i ∈ after.activeChannels, after.revents i = happened (s.loop.channel i).fd

theorem poll_revents (s : Polling ι) (happened : Nat → BitVec 32) (once : ((s.reported happened).map Interest.ptr).Nodup)
    {event : Interest ι} (member : event ∈ s.reported happened) : (s.clear.poll happened).revents event.ptr = event.events := by
  have some : 0 < (s.clear.reported happened).length := List.length_pos_of_mem member
  unfold poll
  dsimp only
  rw [if_pos some]
  exact fills _ _ once event member

theorem Sound.filled (old : Sound fd s) (happened : Nat → BitVec 32) : Filled s happened (s.clear.poll happened) := by
  have fds := old.reported_fds happened
  have once : ((s.reported happened).map Interest.ptr).Nodup := by
    refine List.Nodup.of_map fd ?_
    rw [fds]
    exact old.once.sublist (List.take_sublist _ _)
  have each : ∀ i ∈ (s.reported happened).map Interest.ptr,s.loop.poller.channels (s.loop.channel i).fd = some i ∧
      (s.loop.channel i).isNoneEvent = false ∧ (s.clear.poll happened).revents i = happened (s.loop.channel i).fd := by
    intro i active
    obtain ⟨event,member,rfl⟩ := List.mem_map.mp active
    obtain ⟨f,_,found⟩ := List.mem_filterMap.mp member
    obtain ⟨entry,here,rfl⟩ := Option.map_eq_some_iff.mp found
    obtain ⟨own,mapped,wants⟩ := old.channel here
    have descriptor : (s.loop.channel entry.ptr).fd = f := (old.tracked.descriptor _).trans own
    rw [descriptor]
    refine ⟨mapped,Bool.of_not_eq_true fun none => wants (Channel.isNoneEvent_iff.mp none),?_⟩
    exact poll_revents s happened once member
  rw [← poll_active] at once each
  refine ⟨?_,once,fun i active => (each i active).1,fun i active => (each i active).2.1,fun i active => (each i active).2.2⟩
  rw [poll_active,List.length_map,old.reported_length happened]
  exact List.length_take_le _ _

omit [DecidableEq ι] in
-- There are no more descriptors than channels.
theorem Sound.atMost (old : Sound fd s) (channels : Finset ι) (all : ∀ i, i ∈ channels) : AtMost channels.card s := by
  refine ⟨channels.image fd,Finset.card_image_le,fun f here => ?_⟩
  obtain ⟨entry,here⟩ := Option.isSome_iff_exists.mp here
  exact Finset.mem_image.mpr ⟨entry.ptr,all _,(old.channel here).1⟩

omit [DecidableEq ι] in
theorem new_sound (fd : ι → Nat) (et : ι → Bool) : Sound fd (new fd et) := ⟨tracked_start,List.nodup_nil,fun _ absent => nomatch absent⟩

-- Whatever the channels ask for and whenever their descriptors are ready, each
-- poll meets the asserts of fillActiveChannels; a ready descriptor at place p is
-- handed out by the k-th poll if events_.size() * (2^k - 1) is more than p; and
-- events_ stays within twice the number of descriptors.
theorem polls_in_turn (distinct : Function.Injective fd) {labels : List (Label ι)}
    (met : (machine fd et).Meets (Orderly most) (new fd et) labels) (ran : (machine fd et).run (new fd et) labels = some s) :
    s.events ≤ max kInitEventListSize (most * 2) ∧ (∀ happened, Filled s happened (s.clear.poll happened)) ∧
    ∀ f p more final, s.ready[p]? = some f →
      (machine fd et).Meets (fun s label => Orderly most s label ∧ Keeps fd et f s label) s more →
      (machine fd et).run s more = some final → p < s.events * (2 ^ more.countP Label.isPoll - 1) →
      ∃ i ∈ (machine fd et).trace hands s more,fd i = f := by
  have kept : ∀ s (label : Label ι) after, (Sound fd s ∧ 0 < s.events ∧ s.events ≤ max kInitEventListSize (most * 2)) →
      Orderly most s label → (machine fd et).next s label = some after →
      Sound fd after ∧ 0 < after.events ∧ after.events ≤ max kInitEventListSize (most * 2) :=
    fun _ _ _ old met taken => ⟨old.1.next distinct met taken,old.1.bounded met taken old.2⟩
  have begun : 0 < kInitEventListSize ∧ kInitEventListSize ≤ max kInitEventListSize (most * 2) :=
    ⟨Nat.succ_pos 15,Nat.le_max_left _ _⟩
  obtain ⟨sound,room⟩ := Machine.run_meets kept ⟨new_sound fd et,begun⟩ met ran
  exact ⟨room.2,sound.filled,fun f p more final here met ran soon =>
    sound.handed distinct room (.of_getElem? here) met ran soon⟩

-- Two channels, one of them edge-triggered, whose descriptors become ready.
def twoFds (i : Bool) : Nat := if i then 5 else 6

def twoReady : List (Label Bool) :=
  [.op true (.request .enableReading),.op false (.request .enableWriting),.arrives 5,.arrives 6]

theorem second_in_first_poll : ∃ s, (machine twoFds id).run (new twoFds id) twoReady = some s ∧
    s.ready[1]? = some 6 ∧ s.events ≤ max kInitEventListSize (2 * 2) ∧
    false ∈ (machine twoFds id).trace hands s [.poll fun _ => EPOLLOUT] := by
  have distinct : Function.Injective twoFds := by
    intro i j same; cases i <;> cases j <;> first | rfl | cases same
  have ran : ∃ s, (machine twoFds id).run (new twoFds id) twoReady = some s ∧
      s.ready[1]? = some 6 ∧ s.events = 16 := ⟨_,rfl,rfl,rfl⟩
  have met : (machine twoFds id).Meets (Orderly 2) (new twoFds id) twoReady := by
    refine .cons (.inr (by decide)) rfl ?_
    refine .cons (.inr (by decide)) rfl ?_
    refine .cons trivial rfl ?_
    refine .cons trivial rfl ?_
    trivial
  obtain ⟨s,ran,second,size⟩ := ran
  obtain ⟨bounded,_,soon⟩ := polls_in_turn distinct met ran
  have sound : Sound twoFds s :=
    Machine.run_meets (fun _ _ _ old met taken => old.next distinct met taken) (new_sound twoFds id) met ran
  have few : AtMost 2 s := sound.atMost Finset.univ Finset.mem_univ
  obtain ⟨i,member,six⟩ := soon 6 1 [.poll fun _ => EPOLLOUT] _ second ⟨⟨few,trivial⟩,fun _ _ => trivial⟩ rfl (by rw [size]; decide)
  cases i with
  | false => exact ⟨s,ran,second,bounded,member⟩
  | true => cases six

end Polling
end NewMuduo.EPollPoller
