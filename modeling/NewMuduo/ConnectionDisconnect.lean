import NewMuduo.ConnectionEffects
import NewMuduo.ConnectionThreads

namespace NewMuduo.ConnLoop
variable {w : ConnLoop} {fd : Nat} {admits : BitVec 32 → Bool}

-- An open connection that reads has something registered.
theorem Kept.quiet (old : Kept admits fd w) (reading : w.conn.reading = true) (alone : ¬turnsReading label) :
    w.Quiet label := by
  have registered : Open admits w → w.conn.channel.events ≠ kNoneEvent :=
    fun op => reads_nonempty (op.reading.symm.trans reading)
  have enters : w.entersHandleClose label → w.conn.channel.events ≠ kNoneEvent := by
    intro enters
    cases label with
    | frame answer =>
      match answer with
      | .none =>
        obtain ⟨_,found⟩ := List.head?_eq_some_iff.mp enters
        exact registered (old.closer found rfl).1
      | .read (.bytes []) =>
        obtain ⟨_,found⟩ := List.head?_eq_some_iff.mp enters
        exact registered (old.closer found rfl).1
      | .read (.bytes (_ :: _)) => exact enters.elim
      | .read .error => exact enters.elim
      | .write _ => exact enters.elim
    | functor => exact registered (old.open_or enters.2)
    | _ => exact enters.elim
  match label with
  | .user .startRead => exact absurd trivial alone
  | .user .stopRead => exact absurd trivial alone
  | .user (.send _ _) | .user (.sendInLoop _ _) | .user .shutdown | .user .shutdownInLoop => exact enters
  | .user .forceClose | .user (.inputBuffer _) => exact enters
  | .epoll_wait _ | .handleEvent | .frame _ | .removeConnectionInLoop | .functor => exact enters

end NewMuduo.ConnLoop

namespace NewMuduo.ConnThreads
open ConnLoop (Settled turnsReading)
variable {Tid : Type} [DecidableEq Tid] {s after : ConnThreads Tid} {fd : Nat}

-- state_ stays where handleClose has put it, and the close happens once.
structure ClosedOnce (s : ConnThreads Tid) : Prop where
  state : s.life.loop.handleCloses ≠ [] → s.life.loop.conn.state = .kDisconnected
  once : s.life.loop.handleCloses.length ≤ 1
  close : s.life.loop.closes ≤ 1

-- The user's code on the loop thread leaves reading_ alone.
def Keeps : Label Tid → Prop
  | .loop label => ¬turnsReading label
  | _ => True

-- The interest of a closed channel is left alone.
def Quiet : ConnThreads Tid → Label Tid → Prop := OnLoop ConnLoop.Quiet

-- A thread that has passed the test stores kDisconnecting before handleClose.
def BeforeClose (s : ConnThreads Tid) : Label Tid → Prop
  | .setState _ => s.life.loop.handleCloses = []
  | _ => True

omit [DecidableEq Tid] in
theorem closed_once (old : Settled fd s.life) : ClosedOnce s := by
  have stays := old.1.stays
  exact ⟨fun entered => (stays.terminal entered).1,stays.once,Nat.le_trans stays.close stays.once⟩

-- Before handleClose another thread's store is one that shutdown could make.
theorem settled_setState {life : ConnLoop.Life} (old : Settled fd life) (fresh : life.loop.handleCloses = []) :
    Settled fd {life with loop := life.loop.setState .kDisconnecting} := by
  have live := (old.1.still_open fresh).live
  exact ⟨old.1.disconnecting live,old.2.frame old.2.input rfl rfl rfl fun _ => ⟨live.not_disconnected,rfl⟩⟩

omit [DecidableEq Tid] in
theorem settled_push (old : Settled fd s.life) (t : Tid) (cb : Posted) : Settled fd (s.push t cb).life := by
  cases cb with
  | sendInLoop message => exact old
  | shutdownInLoop => exact old
  | forceCloseInLoop =>
    exact ⟨old.1.queueInLoop _ (by decide),old.2.frame old.2.input rfl rfl rfl fun live => ⟨live,rfl⟩⟩

theorem settled_step (old : Settled fd s.life) (label : Label Tid) (quiet : s.Quiet label) (met : s.BeforeClose label)
    (taken : next ConnLoop.hangsUpAlone s label = some after) : Settled fd after.life := by
  cases next_step taken with
  | loop _ ran => exact old.next quiet ran
  | runFunctor found _ _ ran =>
    refine old.next (quiet _ ?_) ran
    exact congrArg List.head? found
  | call => exact old
  | compare => exact old
  | setState => exact settled_setState old met
  | queueInLoop => exact settled_push old _ _

omit [DecidableEq Tid] in
theorem turn_keeps (turn : Turn Tid) (result : DirectResult) : ¬turnsReading (turn.label result) := by
  cases turn with
  | functor => exact id
  | sendInLoop t message => exact id
  | shutdownInLoop => exact id

theorem reading_step (old : Settled fd s.life) (label : Label Tid) (keeps : Keeps label)
    (taken : next ConnLoop.hangsUpAlone s label = some after) :
    after.life.loop.conn.reading = s.life.loop.conn.reading := by
  cases next_step taken with
  | loop _ ran => exact (old.1.next_aside old.2 ran).reading keeps
  | runFunctor _ _ _ ran => exact (old.1.next_aside old.2 ran).reading (turn_keeps _ _)
  | call => rfl
  | compare => rfl
  | setState => rfl
  | queueInLoop =>
    rename_i cb _
    cases cb with
    | sendInLoop message => rfl
    | shutdownInLoop => rfl
    | forceCloseInLoop => rfl

omit [DecidableEq Tid] in
theorem quiet_of_keeps (old : Settled fd s.life) (reading : s.life.loop.conn.reading = true) (label : Label Tid)
    (keeps : Keeps label) : s.Quiet label := by
  cases label with
  | loop label => exact old.1.quiet reading keeps
  | runFunctor result => exact fun turn _ => old.1.quiet reading (turn_keeps turn result)
  | _ => trivial

theorem late_setState (label : Label Tid) (late : ¬s.BeforeClose label)
    (taken : next ConnLoop.hangsUpAlone s label = some after) : ¬ClosedOnce after := by
  cases next_step taken with
  | setState =>
    intro closed
    cases closed.state late
  | _ => exact absurd trivial late

-- The close is one and final as long as no thread's setState comes after it and
-- no one changes the interest of the closed channel; the first is exact where
-- the user's code leaves reading_ alone.
theorem closed_once_iff_before_close {s final : ConnThreads Tid} (labels : List (Label Tid))
    (origin : (machine ConnLoop.hangsUpAlone).start s)
    (ran : (machine ConnLoop.hangsUpAlone).run s labels = some final) :
    ((machine ConnLoop.hangsUpAlone).Meets (fun s label => s.Quiet label ∧ s.BeforeClose label) s labels →
      (machine ConnLoop.hangsUpAlone).Throughout ClosedOnce s labels) ∧
    ((∀ label ∈ labels, Keeps label) →
      ((machine ConnLoop.hangsUpAlone).Throughout ClosedOnce s labels ↔
        (machine ConnLoop.hangsUpAlone).Meets BeforeClose s labels)) := by
  obtain ⟨⟨fd,highWaterMark,complete,high,born⟩,_⟩ := origin
  have valid : Settled fd s.life := by
    rw [born]
    exact ⟨ConnLoop.established_kept _ _ _ _ _,ConnLoop.established_stream _ _ _ _⟩
  have reading : s.life.loop.conn.reading = true := by rw [born]; rfl
  constructor
  · intro met
    have sound : ∀ s : ConnThreads Tid, Settled fd s.life → ClosedOnce s := fun _ old => closed_once old
    exact Machine.throughout_of_meets sound
      (fun _ label _ old both taken => settled_step old label both.1 both.2 taken) valid met
  · intro keeps
    have sound : ∀ s : ConnThreads Tid, Settled fd s.life ∧ s.life.loop.conn.reading = true → ClosedOnce s :=
      fun _ old => closed_once old.1
    refine Machine.throughout_iff_meets_given sound ?_ ?_ ⟨valid,reading⟩ ran (Machine.meets_labels fun label found _ => keeps label found)
    · intro s label after old keeps met taken
      have quiet := quiet_of_keeps old.1 old.2 label keeps
      exact ⟨settled_step old.1 label quiet met taken,(reading_step old.1 label keeps taken).trans old.2⟩
    · intro s label after _ _ late taken
      exact late_setState label late taken

def fresh : ConnThreads Nat := ⟨ConnLoop.established 7 100 false false,[],fun _ => .idle⟩

-- A thread's forceClose has set state_ when the peer closes.
def forceCloseInTime : List (Label Nat) :=
  [.loop (.frame .none),.call 1 .forceClose,.setState 1,.loop (.epoll_wait EPOLLHUP),.loop .handleEvent,
    .loop (.frame .none),.queueInLoop 1,.loop (.frame .none),.loop (.frame .none),.runFunctor (.wrote 0)]

theorem closed_once_after_forceClose :
    (machine ConnLoop.hangsUpAlone).Throughout ClosedOnce fresh forceCloseInTime := by
  have origin : (machine ConnLoop.hangsUpAlone).start fresh := ⟨⟨7,100,false,false,rfl⟩,rfl,fun _ => rfl⟩
  refine ((closed_once_iff_before_close forceCloseInTime origin rfl).2 ?_).mpr ?_
  · simp [forceCloseInTime,Keeps,turnsReading]
  refine .cons trivial rfl ?_
  refine .cons trivial rfl ?_
  refine ⟨rfl,fun _ _ => Machine.meets_labels ?_⟩
  simp [BeforeClose]

-- handleClose comes between the thread's test and its setState, and
-- forceCloseInLoop closes again.
theorem closed_twice_after_late_setState : ∃ s, (machine ConnLoop.hangsUpAlone).run fresh
      [.loop (.frame .none),.call 1 .forceClose,.loop (.epoll_wait EPOLLHUP),.loop .handleEvent,
        .loop (.frame .none),.loop (.frame .none),.loop (.frame .none),.setState 1,.queueInLoop 1,
        .runFunctor (.wrote 0),.loop (.frame .none),.loop (.frame .none)] = some s ∧
    s.life.loop.handleCloses = [.kConnected,.kDisconnecting] ∧ s.life.loop.closes = 2 ∧ ¬ClosedOnce s := by
  refine ⟨_,rfl,rfl,rfl,fun closed => ?_⟩
  exact absurd closed.once (by decide)

end NewMuduo.ConnThreads
