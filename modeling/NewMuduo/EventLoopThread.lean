import NewMuduo.EventLoop

namespace NewMuduo

-- Where the new thread is in threadFunc, and its owner in startLoop and
-- ~EventLoopThread.
inductive ThreadFunc where
  | unstarted
  | constructing
  | publishing
  | entering
  | looping
  | clearing
  | done
  deriving DecidableEq, Repr

inductive ThreadOwner where
  | constructed
  | waiting
  | started
  | testing
  | quitting
  | waking
  | joining
  | destroyed
  deriving DecidableEq, Repr

-- detail::EventLoopThread of net/TcpServer.cpp: published says that loop_ is
-- not null, quitted that quit() has been executed on that loop. Threads that
-- call members of the loop are none, the owner, and some t.
structure EventLoopThread (F Tid : Type) where
  loop : EventLoop F (Option Tid)
  published : Bool
  exiting : Bool
  thread : ThreadFunc
  owner : ThreadOwner
  quitted : Bool

namespace EventLoopThread
variable {F Tid : Type} {s after : EventLoopThread F Tid}

inductive Label (F Tid : Type) where
  | startLoop
  | construct
  | publish
  | startReturns
  | loop (label : EventLoop.Label F (Option Tid))
  | clear
  | destroy
  | test
  | quit
  | wakeup
  | join

-- Other threads have the pointer that startLoop returned.
def reaches (s : EventLoopThread F Tid) : EventLoop.Label F (Option Tid) → Prop
  | .loop => s.thread = .entering
  | .push t _ | .quit t | .wakeup t => s.published = true ∧ t ≠ none
  | _ => s.thread = .looping

def allowed (s : EventLoopThread F Tid) : Label F Tid → Prop
  | .startLoop => s.owner = .constructed
  | .construct => s.thread = .constructing
  | .publish => s.thread = .publishing
  | .startReturns => s.owner = .waiting ∧ s.published = true
  | .loop label => s.reaches label ∧ s.loop.allowed label
  | .clear => s.thread = .clearing
  | .destroy => s.owner = .constructed ∨ s.owner = .started
  | .test => s.owner = .testing
  | .quit => s.owner = .quitting
  | .wakeup => s.owner = .waking
  | .join => s.owner = .joining ∧ s.thread = .done

instance (s : EventLoopThread F Tid) (label : EventLoop.Label F (Option Tid)) : Decidable (s.reaches label) := by
  cases label <;> (unfold reaches; infer_instance)

instance (s : EventLoopThread F Tid) (label : Label F Tid) : Decidable (s.allowed label) := by
  cases label <;> (unfold allowed; infer_instance)

variable [DecidableEq Tid]

def requests : EventLoop.Label F (Option Tid) → Bool
  | .quit _ | .ownQuit => true
  | _ => false

-- loop() begins and returns.
def passes (thread : ThreadFunc) (phase : Phase) : EventLoop.Label F (Option Tid) → ThreadFunc
  | .loop => .looping
  | .check => if phase = .idle then .clearing else thread
  | _ => thread

def apply (s : EventLoopThread F Tid) : Label F Tid → EventLoopThread F Tid
  | .startLoop => {s with owner := .waiting,thread := .constructing}
  | .construct => {s with thread := .publishing}
  | .publish => {s with thread := .entering,published := true}
  | .startReturns => {s with owner := .started}
  | .loop label =>
    let loop := s.loop.apply label
    {s with loop := loop,thread := passes s.thread loop.phase label,quitted := s.quitted || requests label}
  | .clear => {s with thread := .done,published := false}
  | .destroy => {s with exiting := true,owner := .testing}
  | .test => {s with owner := if s.published then .quitting else .destroyed}
  | .quit => {s with loop := s.loop.apply (.quit none),owner := .waking,quitted := true}
  | .wakeup => {s with loop := s.loop.apply (.wakeup none),owner := .joining}
  | .join => {s with owner := .destroyed}

def new : EventLoopThread F Tid := ⟨.new,false,false,.unstarted,.constructed,false⟩

def machine : Machine (EventLoopThread F Tid) (Label F Tid) := .guarded (· = new) allowed apply

-- The loop thread is not in the while loop with quit_ false.
def QuitHeld (s : EventLoopThread F Tid) : Prop :=
  s.quitted = true → s.loop.phase ≠ .idle → s.loop.quit = true

-- loop() stores quit_ = false before any quit().
def InTime (s : EventLoopThread F Tid) : Label F Tid → Prop
  | .loop .loop => s.quitted = false
  | _ => True

def Kept (s : EventLoopThread F Tid) : Prop := s.quitted = true → s.loop.quit = true

theorem kept_step (old : s.Kept) (label : Label F Tid) (met : s.InTime label) : (s.apply label).Kept := by
  cases label with
  | loop label =>
    intro quitted
    cases asked : requests label with
    | true => cases label <;> first | rfl | cases asked
    | false =>
      have before : s.quitted = true := by simpa [apply,asked] using quitted
      refine EventLoop.apply_quit (old before) label ?_
      rintro rfl
      rw [show s.quitted = false from met] at before
      cases before
  | quit => exact fun _ => rfl
  | wakeup => exact fun quitted => EventLoop.apply_quit (old quitted) _ (by simp)
  | _ => exact old

-- quit() is never lost in a run exactly when loop() has begun before it.
theorem quit_held_iff_in_time (labels : List (Label F Tid))
    (ran : (machine : Machine (EventLoopThread F Tid) (Label F Tid)).run new labels = some s) :
    (machine : Machine (EventLoopThread F Tid) (Label F Tid)).Throughout QuitHeld new labels ↔
      (machine : Machine (EventLoopThread F Tid) (Label F Tid)).Meets InTime new labels := by
  have sound : ∀ s : EventLoopThread F Tid, s.Kept → s.QuitHeld := fun _ old quitted _ => old quitted
  refine Machine.throughout_iff_meets sound ?_ ?_ (fun quitted => by cases quitted) ran
  · intro s label after old met taken
    obtain ⟨_,rfl⟩ := Machine.guarded_parts.mp taken
    exact kept_step old label met
  · intro s label after _ late taken held
    obtain ⟨_,rfl⟩ := Machine.guarded_parts.mp taken
    cases label with
    | loop label =>
      cases label with
      | loop =>
        have quitted : s.quitted = true := by simpa [InTime] using late
        have kept := held (by simp [apply,quitted]) (by simp [apply,EventLoop.apply])
        cases kept
      | _ => exact late trivial
    | _ => exact late trivial

theorem quit_held_in_loop : (machine : Machine (EventLoopThread Nat Nat) (Label Nat Nat)).Throughout QuitHeld new
    [.startLoop,.construct,.publish,.loop .loop,.startReturns,.destroy,.test,.quit] := by
  refine (quit_held_iff_in_time _ rfl).mpr ?_
  refine .cons trivial rfl ?_
  refine .cons trivial rfl ?_
  refine .cons trivial rfl ?_
  refine .cons rfl rfl ?_
  refine .cons trivial rfl ?_
  refine .cons trivial rfl ?_
  refine .cons trivial rfl ?_
  exact ⟨trivial,fun _ _ => trivial⟩

-- The destructor runs between the publication of loop_ and loop().
theorem quit_lost_before_loop : ∃ s, (machine : Machine (EventLoopThread Nat Nat) (Label Nat Nat)).run new
      [.startLoop,.construct,.publish,.startReturns,.destroy,.test,.quit,.wakeup,.loop .loop,.loop .check] = some s ∧
    s.quitted = true ∧ s.loop.phase = .polling ∧ s.loop.quit = false ∧ s.owner = .joining ∧ ¬QuitHeld s := by
  refine ⟨_,rfl,rfl,rfl,rfl,rfl,fun held => ?_⟩
  cases held rfl (by decide)

end EventLoopThread
end NewMuduo
