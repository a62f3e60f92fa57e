import NewMuduo.ConnectionStream
import NewMuduo.EpollInterest

namespace NewMuduo.ConnLoop
variable {w after : ConnLoop} {s reached : Life} {sent : List (List UInt8)} {fd : Nat} {admits : BitVec 32 → Bool}

def Live (w : ConnLoop) : Prop := w.conn.state = .kConnected ∨ w.conn.state = .kDisconnecting

theorem Live.not_disconnected (live : w.Live) : w.conn.state ≠ .kDisconnected := by
  rcases live with same | same <;> rw [same] <;> decide

-- handleClose ran at most once, from a live state, and left the connection
-- closed and out of the kernel's list; the callbacks ran once each, the close
-- callback when handleClose had called it.
structure StaysClosed (w : ConnLoop) : Prop where
  up : w.ups = 1
  entries : ∀ state ∈ w.handleCloses, state = .kConnected ∨ state = .kDisconnecting
  once : w.handleCloses.length ≤ 1
  down : w.downs = w.handleCloses.length
  close : w.closes ≤ w.handleCloses.length
  called : w.frames = [] → w.closes = w.handleCloses.length
  terminal : w.handleCloses ≠ [] →
    w.conn.state = .kDisconnected ∧ w.poller.interest w.conn.channel.fd = none

def entersHandleClose (w : ConnLoop) : Label → Prop
  | .frame .none => w.frames.head? = some .hup
  | .frame (.read (.bytes [])) => w.frames.head? = some .read
  | .functor => w.pendingFunctors.head? = some .forceCloseInLoop ∧ w.Live
  | _ => False

-- Reading is not turned on after the close, nor off when it still counts as
-- on, and handleClose finds the channel registered.
def Quiet (w : ConnLoop) : Label → Prop
  | .user .startRead => w.conn.state ≠ .kDisconnected
  | .user .stopRead => w.conn.state = .kDisconnected → w.conn.reading = false
  | label => w.entersHandleClose label → w.conn.channel.events ≠ kNoneEvent

theorem quiet_registered (quiet : w.Quiet label) (enters : w.entersHandleClose label) :
    w.conn.channel.events ≠ kNoneEvent := by
  cases label with
  | user call => exact enters.elim
  | epoll_wait revents => exact enters.elim
  | handleEvent => exact enters.elim
  | frame answer => exact quiet enters
  | removeConnectionInLoop => exact enters.elim
  | functor => exact quiet enters

-- EPOLLPRI and EPOLLRDHUP come with EPOLLHUP only when EPOLLIN does.
def hangsUpAlone (revents : BitVec 32) : Bool :=
  !(hasAny revents EPOLLHUP && hasAny revents (EPOLLPRI ||| EPOLLRDHUP)) || hasAny revents EPOLLIN

def HangsUpAlone (admits : BitVec 32 → Bool) : Prop :=
  ∀ revents, admits revents = true → hangsUpAlone revents = true

-- A frame that can end in handleClose.
def closing : Frame → Bool
  | .hup | .read => true
  | _ => false

theorem callbacks_close_once (alone : hangsUpAlone revents = true) :
    ((callbacks revents).filter closing).length ≤ 1 := by
  have readable : hasAny revents (EPOLLIN ||| EPOLLPRI ||| EPOLLRDHUP) =
      (hasAny revents EPOLLIN || hasAny revents (EPOLLPRI ||| EPOLLRDHUP)) := by
    simp [Channel.hasAny_or,Bool.or_assoc]
  have kept : (callbacks revents).filter closing =
      (if hasAny revents EPOLLHUP && !hasAny revents EPOLLIN then [.hup] else []) ++
      (if hasAny revents (EPOLLIN ||| EPOLLPRI ||| EPOLLRDHUP) then [.read] else []) := by
    simp [callbacks,apply_ite (List.filter closing),List.filter_cons,closing]
  unfold hangsUpAlone at alone
  rw [kept,readable]
  cases hup : hasAny revents EPOLLHUP <;> cases input : hasAny revents EPOLLIN <;>
    cases rest : hasAny revents (EPOLLPRI ||| EPOLLRDHUP) <;> simp [hup,input,rest] at alone ⊢

theorem callbacks_own (revents : BitVec 32) :
    Frame.closeCallback ∉ callbacks revents ∧ Frame.remove ∉ callbacks revents := by
  unfold callbacks
  constructor <;> (repeat' split) <;> simp

-- The connection's channel as the only one its poller knows.
def view (w : ConnLoop) : EPollPoller.Loop Unit := ⟨fun _ => w.conn.channel,w.poller⟩

def Watched (fd : Nat) (w : ConnLoop) : Prop := EPollPoller.Tracked (fun _ => fd) w.view

theorem Watched.fd_eq (old : Watched fd w) : w.conn.channel.fd = fd := old.descriptor ()

theorem Watched.same (old : Watched fd w) (channel : after.conn.channel = w.conn.channel)
    (poller : after.poller = w.poller) : Watched fd after := by
  unfold Watched view
  rw [channel,poller]
  exact old

theorem update_only (f : Unit → Channel) (c : Channel) : Function.update f () c = fun _ => c :=
  funext fun _ => Function.update_self () c f

theorem Watched.request (old : Watched fd w) (op : Channel.Op)
    (met : w.conn.channel.events ≠ kNoneEvent ∨ op.interest w.conn.channel.events ≠ kNoneEvent) :
    Watched fd (w.request op) := by
  have registered : EPollPoller.Registered w.view ((),.request op) := met.imp_left (old.registered ()).mpr
  have kept := EPollPoller.request_tracked (fun _ _ _ => rfl) old op registered
  unfold EPollPoller.Loop.apply at kept
  simpa [Watched,view,ConnLoop.request,update_only] using kept

theorem Watched.remove (old : Watched fd w) (empty : w.conn.channel.events = kNoneEvent) :
    Watched fd w.remove := by
  have kept := EPollPoller.remove_tracked (i := ()) (fun _ _ _ => rfl) old empty
  unfold EPollPoller.Loop.apply at kept
  simpa [Watched,view,ConnLoop.remove,update_only] using kept

theorem Watched.unlisted (old : Watched fd w) (empty : w.conn.channel.events = kNoneEvent) :
    w.poller.interest fd = none := by
  have entry := old.agrees fd
  rw [show w.poller.interest fd = w.view.poller.interest fd from rfl,entry]
  cases w.view.poller.channels fd with
  | none => rfl
  | some _ => exact if_pos empty

-- A request on a channel that is not registered adds it, whatever it wants.
theorem Watched.registers (old : Watched fd w) (empty : w.conn.channel.events = kNoneEvent) (op : Channel.Op) :
    (w.request op).poller.interest (w.request op).conn.channel.fd ≠ none := by
  have fresh : (w.conn.channel.request op).index < 0 := by
    by_contra known
    exact (old.registered ()).mp (by simpa [view] using known) empty
  unfold ConnLoop.request
  rw [EPollPoller.updateChannel_add () _ fresh]
  simp

-- What sending and writing change, apart from a request about EPOLLOUT.
def exchange (w : ConnLoop) (taken : List UInt8) (shutdowns : List (StateE × List UInt8))
    (outputBuffer : Buffer) (notices : List Functor) : ConnLoop :=
  {w with
    taken := taken
    shutdowns := shutdowns
    pendingFunctors := w.pendingFunctors ++ notices
    conn := {w.conn with outputBuffer := outputBuffer}}

inductive Exchanged (w : ConnLoop) : ConnLoop → Prop where
  | alone : Functor.connectDestroyed ∉ notices → Exchanged w (w.exchange bytes issued outputBuffer notices)
  | enableWriting : Functor.connectDestroyed ∉ notices →
      Exchanged w ((w.exchange bytes issued outputBuffer notices).request .enableWriting)
  | disableWriting : Functor.connectDestroyed ∉ notices → w.conn.channel.isWriting = true →
      Exchanged w ((w.exchange bytes issued outputBuffer notices).request .disableWriting)

theorem exchange_none (w : ConnLoop) :
    w.exchange w.taken w.shutdowns w.conn.outputBuffer [] = w := by simp [exchange]

theorem exchanged_none (w : ConnLoop) : Exchanged w w := by
  have kept : Exchanged w (w.exchange w.taken w.shutdowns w.conn.outputBuffer []) := .alone (by simp)
  rwa [exchange_none] at kept

theorem sendInLoop_exchanged (valid : w.conn.outputBuffer.Valid) (fits : result.Fits data.length)
    (sending : w.sendInLoop data result = some after) : Exchanged w after := by
  unfold sendInLoop at sending
  split at sending
  · cases Option.some.inj sending; exact exchanged_none w
  · obtain ⟨notices,nwrote,remaining,clean,whole,_,direct⟩ := directWrite_parts (w := w) data result fits
    rw [direct] at sending
    simp only [show remaining ≤ data.length by omega,if_true] at sending
    split at sending
    · obtain ⟨queued,outputBuffer,unmixed,_,_,buffered⟩ := bufferRest_parts
        (w := {w with taken := w.taken ++ data.take nwrote,pendingFunctors := w.pendingFunctors ++ notices})
        data nwrote remaining valid
      have both : Functor.connectDestroyed ∉ notices ++ queued := by simp [clean,unmixed]
      rw [buffered] at sending
      simp only [List.append_assoc,Option.some.injEq] at sending
      rw [← sending]
      split
      · exact .enableWriting both
      · exact .alone both
    · cases Option.some.inj sending; exact .alone clean

theorem shutdownInLoop_exchange (w : ConnLoop) : ∃ shutdowns, w.shutdownInLoop = {w with shutdowns := shutdowns} := by
  unfold shutdownInLoop
  split
  · exact ⟨_,rfl⟩
  · exact ⟨_,rfl⟩

theorem written_exchange (w : ConnLoop) : ∃ issued notices, Functor.connectDestroyed ∉ notices ∧
    w.written = (w.exchange w.taken issued w.conn.outputBuffer notices).request .disableWriting := by
  obtain ⟨notices,clean,queued⟩ := queueWriteComplete_notices (w.request .disableWriting)
  unfold written
  rw [queued]
  dsimp only
  split
  · obtain ⟨issued,same⟩ := shutdownInLoop_exchange
      {w.request .disableWriting with pendingFunctors := (w.request .disableWriting).pendingFunctors ++ notices}
    exact ⟨issued,notices,clean,same⟩
  · exact ⟨w.shutdowns,notices,clean,rfl⟩

theorem handleWrite_exchanged (valid : w.conn.outputBuffer.Valid)
    (fits : result.Fits w.conn.outputBuffer.readableBytes)
    (wrote : w.handleWrite result = some after) : Exchanged w after := by
  unfold handleWrite at wrote
  split at wrote
  · rename_i writing
    cases result with
    | error errno => cases wrote; exact exchanged_none w
    | wrote n =>
      dsimp only at wrote
      split at wrote
      · obtain ⟨outputBuffer,retrieved,_⟩ := Buffer.retrieve_yields valid fits
        rw [retrieved] at wrote
        simp only [Option.bind_eq_bind,Option.bind_some,Option.some.injEq] at wrote
        rw [← wrote]
        split
        · obtain ⟨issued,notices,clean,same⟩ := written_exchange {w with
            taken := w.taken ++ w.conn.outputBuffer.readable.take n
            conn := {w.conn with outputBuffer := outputBuffer}}
          rw [same]
          exact .disableWriting clean writing
        · have kept : Exchanged w (w.exchange (w.taken ++ w.conn.outputBuffer.readable.take n) w.shutdowns
            outputBuffer []) := .alone (by simp)
          simpa [exchange] using kept
      · cases wrote; exact exchanged_none w
  · cases wrote; exact exchanged_none w

-- Before handleClose: reading_ is the read interest, both bits of it, and
-- nothing of the close is under way; one frame at most can close.
structure Open (admits : BitVec 32 → Bool) (w : ConnLoop) : Prop where
  live : w.Live
  fresh : w.handleCloses = [] ∧ w.downs = 0 ∧ w.closes = 0
  reading : w.conn.reading = w.conn.channel.isReading
  input : w.conn.channel.wantsInput = w.conn.channel.isReading
  closers : HangsUpAlone admits → (w.frames.filter closing).length ≤ 1
  own : Frame.closeCallback ∉ w.frames ∧ Frame.remove ∉ w.frames
  functors : Functor.connectDestroyed ∉ w.pendingFunctors
  event : ∀ revents, w.active = some revents → admits revents = true ∧ w.frames = []

-- After it: no interest, no event, and no frame that can close again.
structure Closed (w : ConnLoop) : Prop where
  state : w.conn.state = .kDisconnected
  empty : w.conn.channel.events = kNoneEvent
  entry : ∃ state, w.handleCloses = [state] ∧ (state = .kConnected ∨ state = .kDisconnecting)
  down : w.downs = 1
  close : w.closes + w.frames.count .closeCallback = 1
  closers : w.frames.filter closing = []
  event : w.active = none

structure Kept (admits : BitVec 32 → Bool) (fd : Nat) (w : ConnLoop) : Prop where
  watched : Watched fd w
  up : w.ups = 1
  phase : Open admits w ∨ Closed w

theorem Open.not_disconnected (old : Open admits w) : w.conn.state ≠ .kDisconnected := by
  rcases old.live with same | same <;> rw [same] <;> decide

theorem Closed.not_live (old : Closed w) : ¬w.Live := by
  unfold Live
  rw [old.state]
  decide

theorem Kept.stays (old : Kept admits fd w) : StaysClosed w := by
  rcases old.phase with op | cl
  · obtain ⟨none,down,close⟩ := op.fresh
    refine ⟨old.up,?_,?_,?_,?_,?_,fun entered => absurd none entered⟩ <;> simp [none,down,close]
  · obtain ⟨state,entry,live⟩ := cl.entry
    have close := cl.close
    refine ⟨old.up,?_,?_,?_,?_,fun ended => ?_,fun _ => ⟨cl.state,?_⟩⟩
    · intro other found
      rw [entry] at found
      rwa [List.mem_singleton.mp found]
    · simp [entry]
    · simp [entry,cl.down]
    · simp only [entry,List.length_singleton]; omega
    · rw [ended,List.count_nil] at close
      rwa [entry]
    · rw [old.watched.fd_eq]
      exact old.watched.unlisted cl.empty

theorem reads_nonempty (reading : w.conn.channel.isReading = true) : w.conn.channel.events ≠ kNoneEvent := by
  intro empty
  rw [Channel.none_not_reading empty] at reading
  cases reading

theorem writes_nonempty (writing : w.conn.channel.isWriting = true) : w.conn.channel.events ≠ kNoneEvent := by
  intro empty
  rw [Channel.none_not_writing empty] at writing
  cases writing

theorem Open.exchange (old : Open admits w) (clean : Functor.connectDestroyed ∉ notices) :
    Open admits (w.exchange bytes issued outputBuffer notices) :=
  ⟨old.live,old.fresh,old.reading,old.input,old.closers,old.own,by simp [ConnLoop.exchange,old.functors,clean],old.event⟩

-- A request that leaves the read interest alone.
theorem Open.request (old : Open admits w) (op : Channel.Op)
    (reading : (w.request op).conn.channel.isReading = w.conn.channel.isReading)
    (input : (w.request op).conn.channel.wantsInput = w.conn.channel.wantsInput) : Open admits (w.request op) :=
  ⟨old.live,old.fresh,old.reading.trans reading.symm,input.trans (old.input.trans reading.symm),old.closers,old.own,old.functors,old.event⟩

theorem Kept.exchanged (old : Kept admits fd w) (op : Open admits w) (exchanged : Exchanged w after) : Kept admits fd after := by
  cases exchanged with
  | alone clean => exact ⟨old.watched.same rfl rfl,old.up,.inl (op.exchange clean)⟩
  | enableWriting clean =>
    refine ⟨(Watched.same old.watched rfl rfl).request _ (.inr (Channel.enables_nonempty (.inr rfl) _)),old.up,
      .inl ((op.exchange clean).request _ ?_ ?_)⟩
    · exact (request_isReading _).trans Channel.enableWriting_reading
    · exact (request_wantsInput _).trans Channel.enableWriting_input
  | disableWriting clean writing =>
    refine ⟨(Watched.same old.watched rfl rfl).request _ (.inl (writes_nonempty writing)),old.up,
      .inl ((op.exchange clean).request _ ?_ ?_)⟩
    · exact (request_isReading _).trans Channel.disableWriting_reading
    · exact (request_wantsInput _).trans Channel.disableWriting_input

theorem Kept.sendInLoop (old : Kept admits fd w) (valid : w.conn.outputBuffer.Valid) (fits : result.Fits data.length)
    (sending : w.sendInLoop data result = some after) : Kept admits fd after := by
  rcases old.phase with op | cl
  · exact old.exchanged op (sendInLoop_exchanged valid fits sending)
  · unfold ConnLoop.sendInLoop at sending
    rw [if_pos cl.state] at sending
    cases sending
    exact old

theorem Kept.handleWrite (old : Kept admits fd w) (valid : w.conn.outputBuffer.Valid)
    (fits : result.Fits w.conn.outputBuffer.readableBytes)
    (wrote : w.handleWrite result = some after) : Kept admits fd after := by
  rcases old.phase with op | cl
  · exact old.exchanged op (handleWrite_exchanged valid fits wrote)
  · unfold ConnLoop.handleWrite at wrote
    rw [Channel.none_not_writing cl.empty] at wrote
    cases wrote
    exact old

theorem Kept.input (old : Kept admits fd w) (inputBuffer : Buffer) :
    Kept admits fd {w with conn := {w.conn with inputBuffer := inputBuffer}} := by
  refine ⟨old.watched.same rfl rfl,old.up,old.phase.imp ?_ ?_⟩
  · exact fun op => ⟨op.live,op.fresh,op.reading,op.input,op.closers,op.own,op.functors,op.event⟩
  · exact fun cl => ⟨cl.state,cl.empty,cl.entry,cl.down,cl.close,cl.closers,cl.event⟩

theorem Kept.call (old : Kept admits fd w) (idle : w.active = none) : Kept admits fd (w.call [.userCode]) := by
  refine ⟨old.watched.same rfl rfl,old.up,old.phase.imp ?_ ?_⟩
  · exact fun op => ⟨op.live,op.fresh,op.reading,op.input,op.closers,
      by simpa [ConnLoop.call] using op.own,op.functors,fun _ found => by cases idle.symm.trans found⟩
  · exact fun cl => ⟨cl.state,cl.empty,cl.entry,cl.down,by simpa [ConnLoop.call] using cl.close,
      cl.closers,cl.event⟩

theorem Kept.pop (old : Kept admits fd w) (found : w.frames = frame :: rest) (other : frame ≠ .closeCallback) :
    Kept admits fd (w.pop rest) := by
  refine ⟨old.watched.same rfl rfl,old.up,old.phase.imp ?_ ?_⟩
  · intro op
    have fewer : (rest.filter closing).length ≤ (w.frames.filter closing).length := by
      rw [found]; exact ((List.sublist_cons_self frame rest).filter closing).length_le
    have own := op.own
    rw [found] at own
    simp only [List.mem_cons,not_or] at own
    refine ⟨op.live,op.fresh,op.reading,op.input,fun rule => Nat.le_trans fewer (op.closers rule),⟨own.1.2,own.2.2⟩,op.functors,?_⟩
    intro revents reported
    rw [(op.event revents reported).2] at found
    cases found
  · intro cl
    have close := cl.close
    have closers := cl.closers
    rw [found,List.count_cons_of_ne other] at close
    rw [found] at closers
    exact ⟨cl.state,cl.empty,cl.entry,cl.down,close,(List.filter_eq_nil_iff.mpr fun _ there =>
      List.filter_eq_nil_iff.mp closers _ (List.mem_cons_of_mem _ there)),cl.event⟩

-- The frame that closes is the only one that could.
theorem Open.last_closer (op : Open admits w) (rule : HangsUpAlone admits) (found : w.frames = frame :: rest) (closes : closing frame = true) :
    rest.filter closing = [] := by
  have closers := op.closers rule
  rw [found,List.filter_cons_of_pos closes,List.length_cons] at closers
  exact List.eq_nil_of_length_eq_zero (by omega)

theorem Kept.idle (old : Kept admits fd w) (running : w.frames ≠ []) : w.active = none := by
  rcases old.phase with op | cl
  · cases reported : w.active with
    | none => rfl
    | some revents => exact absurd (op.event revents reported).2 running
  · exact cl.event

theorem Kept.handleClose (old : Kept admits fd w) (op : Open admits w) (idle : w.active = none)
    (closers : w.frames.filter closing = []) (nonempty : w.conn.channel.events ≠ kNoneEvent) : Kept admits fd w.handleClose := by
  obtain ⟨none,down,close⟩ := op.fresh
  have marked : Watched fd ({w with handleCloses := w.handleCloses ++ [w.conn.state]}.setState .kDisconnected) :=
    old.watched.same rfl rfl
  refine ⟨(marked.request .disableAll (.inl nonempty)).same rfl rfl,old.up,.inr ?_⟩
  refine ⟨rfl,?_,⟨w.conn.state,?_,op.live⟩,?_,?_,?_,?_⟩
  · exact EPollPoller.updateChannel_events _ _ _
  · simp [ConnLoop.handleClose,ConnLoop.call,ConnLoop.setState,none,ConnLoop.request]
  · simp [ConnLoop.handleClose,ConnLoop.call,ConnLoop.setState,down,ConnLoop.request]
  · have uncalled : w.frames.count .closeCallback = 0 := List.count_eq_zero.mpr op.own.1
    simp [ConnLoop.handleClose,ConnLoop.call,ConnLoop.setState,close,ConnLoop.request,uncalled]
  · simpa [ConnLoop.handleClose,ConnLoop.call,ConnLoop.setState,ConnLoop.request,closing] using closers
  · exact idle

theorem Kept.startRead (old : Kept admits fd w) (open_ : w.conn.state ≠ .kDisconnected) : Kept admits fd w.startRead := by
  unfold ConnLoop.startRead
  split
  · rcases old.phase with op | cl
    · have reading : (w.request .enableReading).conn.channel.isReading = true :=
        (request_isReading _).trans Channel.enableReading_reading
      have input : (w.request .enableReading).conn.channel.wantsInput = true :=
        (request_wantsInput _).trans Channel.enableReading_input
      have watched := old.watched.request _ (.inr (Channel.enables_nonempty (.inl rfl) _))
      exact ⟨watched.same rfl rfl,old.up,
        .inl ⟨op.live,op.fresh,reading.symm,input.trans reading.symm,op.closers,op.own,op.functors,op.event⟩⟩
    · exact absurd cl.state open_
  · exact old

theorem Kept.stopRead (old : Kept admits fd w) (quiet : w.conn.state = .kDisconnected → w.conn.reading = false) :
    Kept admits fd w.stopRead := by
  unfold ConnLoop.stopRead
  split
  · rename_i wanted
    rcases old.phase with op | cl
    · have reading : w.conn.channel.isReading = true := by
        rw [op.reading,Bool.or_self] at wanted; exact wanted
      have ended : (w.request .disableReading).conn.channel.isReading = false :=
        (request_isReading _).trans Channel.disableReading_reading
      have input : (w.request .disableReading).conn.channel.wantsInput = false :=
        (request_wantsInput _).trans Channel.disableReading_input
      have watched := old.watched.request .disableReading (.inl (reads_nonempty reading))
      exact ⟨watched.same rfl rfl,old.up,
        .inl ⟨op.live,op.fresh,ended.symm,input.trans ended.symm,op.closers,op.own,op.functors,op.event⟩⟩
    · rw [quiet cl.state,Channel.none_not_reading cl.empty] at wanted
      cases wanted
  · exact old

theorem Kept.shutdownInLoop (old : Kept admits fd w) : Kept admits fd w.shutdownInLoop := by
  obtain ⟨issued,same⟩ := shutdownInLoop_exchange w
  rw [same]
  refine ⟨old.watched.same rfl rfl,old.up,old.phase.imp ?_ ?_⟩
  · exact fun op => ⟨op.live,op.fresh,op.reading,op.input,op.closers,op.own,op.functors,op.event⟩
  · exact fun cl => ⟨cl.state,cl.empty,cl.entry,cl.down,cl.close,cl.closers,cl.event⟩

theorem Kept.disconnecting (old : Kept admits fd w) (live : w.Live) : Kept admits fd (w.setState .kDisconnecting) := by
  refine ⟨old.watched.same rfl rfl,old.up,.inl ?_⟩
  rcases old.phase with op | cl
  · exact ⟨.inr rfl,op.fresh,op.reading,op.input,op.closers,op.own,op.functors,op.event⟩
  · exact absurd live cl.not_live

theorem Kept.queueInLoop (old : Kept admits fd w) (cb : Functor) (clean : cb ≠ .connectDestroyed) :
    Kept admits fd (w.queueInLoop cb) := by
  refine ⟨old.watched.same rfl rfl,old.up,old.phase.imp ?_ ?_⟩
  · intro op
    exact ⟨op.live,op.fresh,op.reading,op.input,op.closers,op.own,
      by simp [ConnLoop.queueInLoop,op.functors,clean.symm],op.event⟩
  · exact fun cl => ⟨cl.state,cl.empty,cl.entry,cl.down,cl.close,cl.closers,cl.event⟩

theorem Kept.perform (old : Kept admits fd w) (stream : Stream sent w) (call : Call) (quiet : w.Quiet (.user call))
    (taken : w.perform call = some after) : Kept admits fd after := by
  cases perform_parts taken with
  | send _ fits sending | sendInLoop fits sending => exact old.sendInLoop stream.output fits sending
  | refused => exact old
  | shutdown =>
    unfold ConnLoop.shutdown
    split
    · rename_i connected
      exact (old.disconnecting (.inl connected)).shutdownInLoop
    · exact old
  | shutdownInLoop => exact old.shutdownInLoop
  | forceClose =>
    unfold ConnLoop.forceClose
    split
    · rename_i live
      exact (old.disconnecting live).queueInLoop _ (by decide)
    · exact old
  | startRead => exact old.startRead quiet
  | stopRead => exact old.stopRead quiet
  | @inputBuffer _ inputBuffer _ _ => exact old.input inputBuffer

-- A frame that closes was there, so the connection was open.
theorem Kept.closer (old : Kept admits fd w) (found : w.frames = frame :: rest) (closes : closing frame = true) :
    Open admits w ∧ (HangsUpAlone admits → rest.filter closing = []) := by
  rcases old.phase with op | cl
  · exact ⟨op,fun rule => op.last_closer rule found closes⟩
  · have closers := cl.closers
    rw [found,List.filter_cons_of_pos closes] at closers
    cases closers

theorem Kept.open_or (old : Kept admits fd w) (live : w.Live) : Open admits w := old.phase.resolve_right fun cl => cl.not_live live

theorem Kept.remove (old : Kept admits fd w) (cl : Closed w) : Kept admits fd w.remove :=
  ⟨old.watched.remove cl.empty,old.up,.inr ⟨cl.state,(EPollPoller.remove_events ()).trans cl.empty,
    cl.entry,cl.down,cl.close,cl.closers,cl.event⟩⟩

-- The kernel keeps its rule and the channel is registered, or the step does
-- not close after all.
def Settles (admits : BitVec 32 → Bool) (w after : ConnLoop) : Prop :=
  HangsUpAlone admits ∧ w.conn.channel.events ≠ kNoneEvent ∨ after.conn.state ≠ .kDisconnected

theorem Kept.runFrame (old : Kept admits fd w) (stream : Stream sent w)
    (settles : w.entersHandleClose (.frame answer) → Settles admits w after)
    (taken : w.runFrame answer = some after) : Kept admits fd after := by
  unfold ConnLoop.runFrame at taken
  split at taken
  · rename_i rest found
    cases taken
    obtain ⟨op,closers⟩ := old.closer found rfl
    have kept := old.pop found (by decide)
    rcases settles (by simp [entersHandleClose,found]) with ⟨rule,nonempty⟩ | live
    · exact kept.handleClose (kept.open_or op.live) (old.idle (by simp [found])) (closers rule) nonempty
    · exact absurd rfl live
  · rename_i rest found
    cases taken
    exact old.pop found (by decide)
  · rename_i rest result found
    split at taken
    · rename_i fits
      obtain ⟨op,closers⟩ := old.closer found rfl
      have kept := old.pop found (by decide)
      have idle := old.idle (by simp [found])
      obtain ⟨inputBuffer,read,_⟩ := Buffer.readFd_yields stream.input result fits
      have filled := kept.input inputBuffer
      unfold ConnLoop.handleRead at taken
      rw [show (w.pop rest).conn.inputBuffer = w.conn.inputBuffer from rfl,read] at taken
      match result with
      | .bytes (_ :: _) => cases taken; exact filled.call idle
      | .bytes [] =>
        cases taken
        rcases settles (by simp [entersHandleClose,found]) with ⟨rule,nonempty⟩ | live
        · exact filled.handleClose (filled.open_or op.live) idle (closers rule) nonempty
        · exact absurd rfl live
      | .error => cases taken; exact filled
    · cases taken
  · rename_i rest result found
    split at taken
    · rename_i fits
      exact (old.pop found (by decide)).handleWrite stream.output fits taken
    · cases taken
  · rename_i rest found
    cases taken
    exact old.pop found (by decide)
  · rename_i rest found
    cases taken
    refine ⟨old.watched.same rfl rfl,old.up,old.phase.imp ?_ ?_⟩
    · intro op
      exact absurd (by simp [found]) op.own.1
    · intro cl
      have close := cl.close
      have closers := cl.closers
      rw [found,List.count_cons_self] at close
      rw [found] at closers
      exact ⟨cl.state,cl.empty,cl.entry,cl.down,by simp only [ConnLoop.pop]; omega,closers,cl.event⟩
  · rename_i rest found
    cases taken
    have kept := old.pop found (by decide)
    rcases kept.phase with op | cl
    · exact absurd (by simp [found]) ((old.open_or op.live).own.2)
    · exact kept.remove cl
  · cases taken

theorem Kept.popFunctor (old : Kept admits fd w) (found : w.pendingFunctors = cb :: rest) :
    Kept admits fd {w with pendingFunctors := rest} := by
  refine ⟨old.watched.same rfl rfl,old.up,old.phase.imp ?_ ?_⟩
  · intro op
    have clean := op.functors
    rw [found] at clean
    exact ⟨op.live,op.fresh,op.reading,op.input,op.closers,op.own,fun later => clean (List.mem_cons_of_mem _ later),op.event⟩
  · exact fun cl => ⟨cl.state,cl.empty,cl.entry,cl.down,cl.close,cl.closers,cl.event⟩

theorem Kept.runFunctor (old : Kept admits fd w) (idle : w.active = none) (ended : w.frames = [])
    (clean : cb = .connectDestroyed → Closed w)
    (settles : cb = .forceCloseInLoop → w.Live → Settles admits w (w.runFunctor cb)) :
    Kept admits fd (w.runFunctor cb) := by
  cases cb with
  | writeCompleteCallback => exact old.call idle
  | highWaterMarkCallback len => exact old.call idle
  | forceCloseInLoop =>
    by_cases live : w.Live
    · have closes : w.runFunctor .forceCloseInLoop = w.handleClose := if_pos live
      have settled := settles rfl live
      rw [closes] at settled ⊢
      rcases settled with ⟨_,nonempty⟩ | open_
      · exact old.handleClose (old.open_or live) idle (by rw [ended]; rfl) nonempty
      · exact absurd rfl open_
    · rw [show w.runFunctor .forceCloseInLoop = w from if_neg live]
      exact old
  | connectDestroyed =>
    have cl := clean rfl
    simp only [ConnLoop.runFunctor,ConnLoop.connectDestroyed]
    rw [if_neg (by rw [cl.state]; decide)]
    exact old.remove cl

theorem Kept.next (old : Kept admits fd s.loop) (stream : Stream s.accepted s.loop)
    (quiet : ∀ call, label = .user call → s.loop.Quiet (.user call))
    (settles : s.loop.entersHandleClose label → Settles admits s.loop reached.loop)
    (taken : ConnLoop.next admits s label = some reached) : Kept admits fd reached.loop := by
  cases next_step taken with
  | user use _ performed => exact old.perform stream _ (quiet _ rfl) performed
  | epoll_wait ended _ listed alone =>
    refine ⟨old.watched.same rfl rfl,old.up,?_⟩
    rcases old.phase with op | cl
    · refine .inl ⟨op.live,op.fresh,op.reading,op.input,op.closers,op.own,op.functors,fun other same => ?_⟩
      cases same
      exact ⟨alone,ended⟩
    · rw [old.watched.fd_eq,old.watched.unlisted cl.empty] at listed
      cases listed
  | handleEvent _ reported =>
    refine ⟨old.watched.same rfl rfl,old.up,?_⟩
    rcases old.phase with op | cl
    · exact .inl ⟨op.live,op.fresh,op.reading,op.input,
        fun rule => callbacks_close_once (rule _ (op.event _ reported).1),callbacks_own _,
        op.functors,fun _ same => (by cases same)⟩
    · cases cl.event.symm.trans reported
  | frame ran => exact old.runFrame stream settles ran
  | removeConnectionInLoop called =>
    refine ⟨old.watched.same rfl rfl,old.up,?_⟩
    rcases old.phase with op | cl
    · exact absurd op.fresh.2.2 (by omega)
    · exact .inr ⟨cl.state,cl.empty,cl.entry,cl.down,cl.close,cl.closers,cl.event⟩
  | functor ended idle found =>
    have kept := old.popFunctor found
    refine kept.runFunctor idle ended (fun same => ?_) fun same live => ?_
    · refine kept.phase.resolve_left fun op => ?_
      exact (old.open_or op.live).functors (by simp [found,same])
    · exact settles ⟨by simp [found,same],live⟩

theorem established_kept (admits : BitVec 32 → Bool) (fd highWaterMark : Nat) (complete high : Bool) :
    Kept admits fd (established fd highWaterMark complete high).loop := by
  have fresh : Watched fd (construct (configured fd highWaterMark complete high)) :=
    @EPollPoller.tracked_start Unit (fun _ => fd) fun _ => true
  have marked : Watched fd ((construct (configured fd highWaterMark complete high)).setState .kConnected) :=
    fresh.same rfl rfl
  have frames : (established fd highWaterMark complete high).loop.frames = [.userCode] := rfl
  have functors : (established fd highWaterMark complete high).loop.pendingFunctors = [] := rfl
  have reading : (established fd highWaterMark complete high).loop.conn.channel.isReading = true :=
    (request_isReading _).trans Channel.enableReading_reading
  refine ⟨(marked.request .enableReading (.inr (Channel.enables_nonempty (.inl rfl) _))).same rfl rfl,rfl,.inl ?_⟩
  have input : (established fd highWaterMark complete high).loop.conn.channel.wantsInput = true :=
    (request_wantsInput _).trans Channel.enableReading_input
  refine ⟨.inl rfl,⟨rfl,rfl,rfl⟩,reading.symm,input.trans reading.symm,?_,?_,?_,fun _ same => (by cases same)⟩
  · exact fun _ => by rw [frames]; decide
  · rw [frames]; decide
  · rw [functors]; decide

theorem listed_again (entered : w.handleCloses ≠ []) (listed : w.poller.interest w.conn.channel.fd ≠ none) :
    ¬StaysClosed w := fun stays => listed (stays.terminal entered).2

theorem Watched.handleClose_lists (old : Watched fd w) (empty : w.conn.channel.events = kNoneEvent) :
    ¬StaysClosed w.handleClose := by
  have marked : Watched fd ({w with handleCloses := w.handleCloses ++ [w.conn.state]}.setState .kDisconnected) :=
    old.same rfl rfl
  exact listed_again (by simp [ConnLoop.handleClose,ConnLoop.call,ConnLoop.request,ConnLoop.setState])
    (marked.registers empty .disableAll)

theorem Closed.entered (cl : Closed w) : w.handleCloses ≠ [] := by
  obtain ⟨state,entry,_⟩ := cl.entry
  rw [entry]
  exact List.cons_ne_nil _ _

theorem Kept.missed_call (old : Kept admits fd w) (use : Call) (missed : ¬w.Quiet (.user use))
    (performed : w.perform use = some after) : ¬StaysClosed after := by
  cases use with
  | startRead =>
    have closed : w.conn.state = .kDisconnected := by simpa [Quiet] using missed
    have cl := old.phase.resolve_left fun op => op.not_disconnected closed
    cases performed
    unfold ConnLoop.startRead
    rw [Channel.none_not_reading cl.empty,Bool.not_false,Bool.or_true,if_pos rfl]
    exact listed_again cl.entered (old.watched.registers cl.empty .enableReading)
  | stopRead =>
    obtain ⟨closed,reading⟩ : w.conn.state = .kDisconnected ∧ w.conn.reading = true := by
      simpa [Quiet] using missed
    have cl := old.phase.resolve_left fun op => op.not_disconnected closed
    cases performed
    unfold ConnLoop.stopRead
    rw [reading,Bool.true_or,if_pos rfl]
    exact listed_again cl.entered (old.watched.registers cl.empty .disableReading)
  | _ => exact absurd (by simp [Quiet,entersHandleClose]) missed

theorem Watched.missed_frame (old : Watched fd w) (enters : w.entersHandleClose (.frame answer))
    (empty : w.conn.channel.events = kNoneEvent) (ran : w.runFrame answer = some after) : ¬StaysClosed after := by
  match answer with
  | .none =>
    obtain ⟨rest,found⟩ := List.head?_eq_some_iff.mp enters
    simp only [ConnLoop.runFrame,found] at ran
    cases ran
    exact Watched.handleClose_lists (w := w.pop rest) (old.same rfl rfl) empty
  | .read (.bytes []) =>
    obtain ⟨rest,found⟩ := List.head?_eq_some_iff.mp enters
    simp only [ConnLoop.runFrame,found] at ran
    split at ran
    · unfold ConnLoop.handleRead at ran
      obtain ⟨inputBuffer,_,closed⟩ := Option.bind_eq_some_iff.mp ran
      cases closed
      exact Watched.handleClose_lists (Watched.same old rfl rfl) empty
    · cases ran
  | .read (.bytes (_ :: _)) => exact enters.elim
  | .read .error => exact enters.elim
  | .write _ => exact enters.elim

theorem Kept.missed (old : Kept admits fd s.loop) (missed : ¬s.loop.Quiet label)
    (taken : ConnLoop.next admits s label = some reached) : ¬StaysClosed reached.loop := by
  cases next_step taken with
  | user use _ performed => exact old.missed_call use missed performed
  | epoll_wait => exact absurd (by simp [Quiet,entersHandleClose]) missed
  | handleEvent => exact absurd (by simp [Quiet,entersHandleClose]) missed
  | frame ran =>
    obtain ⟨enters,empty⟩ := Classical.not_imp.mp missed
    exact old.watched.missed_frame enters (Decidable.not_not.mp empty) ran
  | removeConnectionInLoop => exact absurd (by simp [Quiet,entersHandleClose]) missed
  | functor _ _ found =>
    rename_i cb rest _ _
    obtain ⟨⟨head,live⟩,empty⟩ := Classical.not_imp.mp missed
    rw [found] at head
    cases head
    have closes : ({s.loop with pendingFunctors := rest} : ConnLoop).runFunctor .forceCloseInLoop =
        ({s.loop with pendingFunctors := rest} : ConnLoop).handleClose := if_pos live
    dsimp only
    rw [closes]
    exact Watched.handleClose_lists (Watched.same old.watched rfl rfl) (Decidable.not_not.mp empty)

def Settled (fd : Nat) (s : Life) : Prop := Kept hangsUpAlone fd s.loop ∧ Stream s.accepted s.loop

theorem Settled.next (old : Settled fd s) (met : s.loop.Quiet label)
    (taken : ConnLoop.next hangsUpAlone s label = some reached) : Settled fd reached := by
  refine ⟨old.1.next old.2 ?_ (fun enters => ?_) taken,next_stream old.2 taken⟩
  · rintro call rfl
    exact met
  · exact .inl ⟨fun _ alone => alone,quiet_registered met enters⟩

-- Closed is final throughout a run exactly when every step of it is quiet.
theorem stays_closed_iff_quiet (origin : (life hangsUpAlone).start s)
    (ran : (life hangsUpAlone).run s labels = some reached) :
    (life hangsUpAlone).Throughout (fun s => StaysClosed s.loop) s labels ↔
      (life hangsUpAlone).Meets (fun s label => s.loop.Quiet label) s labels := by
  obtain ⟨fd,highWaterMark,complete,high,rfl⟩ := origin
  have sound : ∀ s, Settled fd s → StaysClosed s.loop := fun _ old => old.1.stays
  exact Machine.throughout_iff_meets sound (fun _ _ _ old met taken => old.next met taken)
    (fun _ _ _ old missed taken => old.1.missed missed taken)
    ⟨established_kept _ _ _ _ _,established_stream _ _ _ _⟩ ran

theorem stays_closed_after_forceClose :
    (life hangsUpAlone).Throughout (fun s => StaysClosed s.loop) (established 7 100 false false)
      [.user .forceClose,.frame .none,.functor,.frame .none,.frame .none,.removeConnectionInLoop,.functor] := by
  refine (stays_closed_iff_quiet ⟨7,100,false,false,rfl⟩ rfl).mpr ?_
  refine .cons (fun enters => enters.elim) rfl ?_
  refine .cons (fun enters => (by cases enters)) rfl ?_
  refine .cons (fun _ => by decide) rfl ?_
  refine .cons (fun enters => (by cases enters)) rfl ?_
  refine .cons (fun enters => (by cases enters)) rfl ?_
  refine .cons (fun enters => enters.elim) rfl ?_
  exact ⟨fun enters => (by cases enters.1),fun _ _ => trivial⟩

-- forceClose, then startRead before connectDestroyed, and the peer hangs up.
theorem startRead_reopens : ∃ reached, (life hangsUpAlone).run (established 7 100 false false)
      [.user .forceClose,.frame .none,.functor,.frame .none,.frame .none,.user .startRead,
        .epoll_wait EPOLLHUP,.handleEvent,.frame .none] = some reached ∧
    reached.loop.handleCloses = [.kDisconnecting,.kDisconnected] ∧
    reached.loop.downs = 2 ∧ ¬StaysClosed reached.loop := by
  refine ⟨_,rfl,rfl,rfl,fun stays => ?_⟩
  exact absurd stays.once (by decide)

end NewMuduo.ConnLoop
