import NewMuduo.ConnectionTeardown

namespace NewMuduo.ConnLoop
variable {w after : ConnLoop} {fd : Nat}

-- A connection that handleClose has not closed is watched for input; a closed
-- one has had its only call of connectionCallback_ for DOWN.
structure Alive (w : ConnLoop) : Prop where
  live : w.Live
  reading : w.conn.channel.isReading = true
  down : w.downs = 0

structure Down (w : ConnLoop) : Prop where
  state : w.conn.state = .kDisconnected
  empty : w.conn.channel.events = kNoneEvent
  down : w.downs = 1

structure Ready (fd : Nat) (w : ConnLoop) : Prop where
  watched : Watched fd w
  phase : Alive w ∨ Down w
  frames : Frame.remove ∉ w.frames
  functors : Functor.connectDestroyed ∉ w.pendingFunctors

theorem Exchanged.downs (exchanged : Exchanged w after) : after.downs = w.downs := by
  cases exchanged <;> rfl

theorem Ready.alive (old : Ready fd w) (open_ : w.conn.state ≠ .kDisconnected) : Alive w :=
  old.phase.resolve_right fun down => open_ down.state

theorem Ready.down (old : Ready fd w) (closed : w.conn.state = .kDisconnected) : Down w :=
  old.phase.resolve_left fun alive => alive.live.not_disconnected closed

theorem Ready.frame (old : Ready fd w) (channel : after.conn.channel = w.conn.channel) (poller : after.poller = w.poller)
    (state : after.conn.state = w.conn.state) (downs : after.downs = w.downs) (frames : Frame.remove ∉ after.frames)
    (functors : Functor.connectDestroyed ∉ after.pendingFunctors) : Ready fd after := by
  refine ⟨old.watched.same channel poller,old.phase.imp ?_ ?_,frames,functors⟩
  · intro alive
    refine ⟨?_,by rw [channel]; exact alive.reading,downs.trans alive.down⟩
    unfold Live
    rw [state]
    exact alive.live
  · exact fun down => ⟨state.trans down.state,by rw [channel]; exact down.empty,downs.trans down.down⟩

theorem Ready.exchanged (old : Ready fd w) (alive : Alive w) (exchanged : Exchanged w after) : Ready fd after := by
  have clear : ∀ {notices : List Functor}, Functor.connectDestroyed ∉ notices →
      Functor.connectDestroyed ∉ w.pendingFunctors ++ notices := fun clean => by simp [old.functors,clean]
  cases exchanged with
  | alone clean => exact old.frame rfl rfl rfl rfl old.frames (clear clean)
  | enableWriting clean =>
    have watched := (Watched.same old.watched rfl rfl).request .enableWriting (.inr (Channel.enables_nonempty (.inr rfl) _))
    refine ⟨watched,.inl ⟨alive.live,?_,alive.down⟩,old.frames,clear clean⟩
    exact (request_isReading _).trans (Channel.enableWriting_reading.trans alive.reading)
  | disableWriting clean writing =>
    have watched := (Watched.same old.watched rfl rfl).request .disableWriting (.inl (writes_nonempty writing))
    refine ⟨watched,.inl ⟨alive.live,?_,alive.down⟩,old.frames,clear clean⟩
    exact (request_isReading _).trans (Channel.disableWriting_reading.trans alive.reading)

theorem Ready.handleClose (old : Ready fd w) (alive : Alive w) : Ready fd w.handleClose := by
  have nonempty := reads_nonempty alive.reading
  have marked : Watched fd ({w with handleCloses := w.handleCloses ++ [w.conn.state]}.setState .kDisconnected) :=
    old.watched.same rfl rfl
  refine ⟨(marked.request .disableAll (.inl nonempty)).same rfl rfl,.inr ⟨rfl,?_,?_⟩,?_,old.functors⟩
  · exact EPollPoller.updateChannel_events _ _ _
  · exact congrArg (· + 1) alive.down
  · simpa [ConnLoop.handleClose,ConnLoop.call,ConnLoop.setState,ConnLoop.request] using old.frames

theorem Ready.forceCloseInLoop (old : Ready fd w) : Ready fd w.forceCloseInLoop := by
  unfold ConnLoop.forceCloseInLoop
  split
  · rename_i live
    exact old.handleClose (old.alive (Live.not_disconnected live))
  · exact old

theorem Ready.disconnecting (old : Ready fd w) (live : w.Live) : Ready fd (w.setState .kDisconnecting) := by
  have alive : Alive w := old.alive live.not_disconnected
  exact ⟨old.watched.same rfl rfl,.inl ⟨.inr rfl,alive.reading,alive.down⟩,old.frames,old.functors⟩

theorem Ready.shutdown (old : Ready fd w) : Ready fd w.shutdown := by
  unfold ConnLoop.shutdown
  split
  · rename_i connected
    obtain ⟨issued,same⟩ := shutdownInLoop_exchange (w.setState .kDisconnecting)
    have marked := old.disconnecting (.inl connected)
    rw [same]
    exact marked.frame rfl rfl rfl rfl old.frames old.functors
  · exact old

theorem Ready.forceClose (old : Ready fd w) : Ready fd w.forceClose := by
  unfold ConnLoop.forceClose
  split
  · rename_i live
    exact (old.disconnecting live).frame rfl rfl rfl rfl old.frames (by simp [queueInLoop,setState,old.functors])
  · exact old

theorem Ready.send {sent : List (List UInt8)} (old : Ready fd w) (stream : Stream sent w)
    (taken : w.perform (.send message result) = some after) : Ready fd after := by
  cases ConnLoop.perform_parts taken with
  | send connected fits sending =>
    exact old.exchanged (old.alive (by rw [connected]; decide)) (sendInLoop_exchanged stream.output fits sending)
  | refused => exact old

theorem Ready.useInput (old : Ready fd w) (taken : w.perform (.inputBuffer op) = some after) : Ready fd after := by
  cases ConnLoop.perform_parts taken with
  | inputBuffer => exact old.frame rfl rfl rfl rfl old.frames old.functors

theorem Ready.pop (old : Ready fd w) (top : w.frames = first :: rest) : Ready fd (w.pop rest) := by
  have outer := old.frames
  rw [top] at outer
  exact old.frame rfl rfl rfl rfl (fun deeper => outer (List.mem_cons_of_mem _ deeper)) old.functors

theorem Ready.call (old : Ready fd w) : Ready fd (w.call [.userCode]) :=
  old.frame rfl rfl rfl rfl (by simpa [ConnLoop.call] using old.frames) old.functors

theorem Ready.handleWrite {sent : List (List UInt8)} (old : Ready fd w) (stream : Stream sent w)
    (fits : result.Fits w.conn.outputBuffer.readableBytes) (wrote : w.handleWrite result = some after) : Ready fd after := by
  rcases old.phase with alive | down
  · exact old.exchanged alive (handleWrite_exchanged stream.output fits wrote)
  · unfold ConnLoop.handleWrite at wrote
    rw [Channel.none_not_writing down.empty] at wrote
    cases wrote
    exact old

theorem Ready.handleRead {sent : List (List UInt8)} (old : Ready fd w) (stream : Stream sent w) (fits : result.Fits w.conn.inputBuffer)
    (open_ : result = .bytes [] → w.conn.state ≠ .kDisconnected) (read : w.handleRead result = some after) : Ready fd after := by
  obtain ⟨inputBuffer,filled,_⟩ := Buffer.readFd_yields stream.input result fits
  have kept : Ready fd {w with conn := {w.conn with inputBuffer := inputBuffer}} :=
    old.frame rfl rfl rfl rfl old.frames old.functors
  unfold ConnLoop.handleRead at read
  rw [filled] at read
  match result with
  | .bytes (_ :: _) =>
    cases read
    exact kept.call
  | .bytes [] =>
    cases read
    exact kept.handleClose (kept.alive (open_ rfl))
  | .error =>
    cases read
    exact kept

theorem Ready.runFrame {sent : List (List UInt8)} (old : Ready fd w) (stream : Stream sent w)
    (open_ : w.entersHandleClose (.frame answer) → w.conn.state ≠ .kDisconnected)
    (taken : w.runFrame answer = some after) : Ready fd after := by
  unfold ConnLoop.runFrame at taken
  split at taken
  · rename_i top
    cases taken
    have popped := old.pop top
    exact popped.handleClose (popped.alive (open_ (by simp [entersHandleClose,top])))
  · rename_i top
    cases taken
    exact old.pop top
  · rename_i top
    split at taken
    · rename_i fits
      refine (old.pop top).handleRead (stream.pop _) fits (fun empty => ?_) taken
      subst empty
      exact open_ (by simp [entersHandleClose,top])
    · cases taken
  · rename_i top
    split at taken
    · rename_i fits
      exact (old.pop top).handleWrite (stream.pop _) fits taken
    · cases taken
  · rename_i top
    cases taken
    exact old.pop top
  · rename_i top
    cases taken
    have popped := old.pop top
    exact popped.frame rfl rfl rfl rfl popped.frames popped.functors
  · rename_i top
    exact absurd (by rw [top]; exact List.mem_cons_self) old.frames
  · cases taken

theorem Ready.runFunctor (old : Ready fd w) (top : w.pendingFunctors = cb :: rest) :
    Ready fd ({w with pendingFunctors := rest}.runFunctor cb) := by
  have queue := old.functors
  rw [top] at queue
  have later : Functor.connectDestroyed ∉ rest := fun queued => queue (List.mem_cons_of_mem _ queued)
  have popped : Ready fd {w with pendingFunctors := rest} := old.frame rfl rfl rfl rfl old.frames later
  cases cb with
  | writeCompleteCallback => exact popped.call
  | highWaterMarkCallback len => exact popped.call
  | forceCloseInLoop => exact popped.forceCloseInLoop
  | connectDestroyed => exact absurd List.mem_cons_self queue

-- What ~TcpServer relies on: both asserts, a poller that has forgotten the
-- channel, and one call of connectionCallback_ for DOWN. remove leaves events_
-- as it finds them, so noEvents is the assert of Channel::remove.
structure TornDown (w : ConnLoop) : Prop where
  state : w.conn.state = .kDisconnected
  noEvents : w.conn.channel.isNoneEvent = true
  unmapped : w.poller.channels w.conn.channel.fd = none
  unlisted : w.poller.interest w.conn.channel.fd = none
  down : w.downs = 1

theorem Down.remove (down : Down w) (watched : Watched fd w) : TornDown w.remove := by
  have empty : w.remove.conn.channel.events = kNoneEvent := (EPollPoller.remove_events ()).trans down.empty
  have kept := watched.remove down.empty
  refine ⟨down.state,Channel.isNoneEvent_iff.mpr empty,?_,?_,down.down⟩
  · rw [kept.fd_eq]
    unfold ConnLoop.remove
    rw [EPollPoller.remove_channels,watched.fd_eq]
    exact Function.update_self ..
  · rw [kept.fd_eq]
    exact kept.unlisted empty

namespace Teardown
variable {s later : Teardown}

-- What every use keeps, a whole callback keeps.
theorem useAll_keeps {Kept : Teardown → Prop} (uses : List Use) (step : ∀ s u later, Kept s → Teardown.use s u = some later → Kept later)
    (old : Kept s) (taken : useAll s uses = some later) : Kept later := by
  induction uses generalizing s with
  | nil =>
    cases taken
    exact old
  | cons first rest ih =>
    obtain ⟨middle,used,rest_taken⟩ := Option.bind_eq_some_iff.mp taken
    exact ih (step s first middle old used) rest_taken

-- connectDestroyed with the call of connectionCallback_ and without it.
theorem connectDestroyed_parts (taken : s.connectDestroyed callback = some later) :
    (s.loop.conn.state = .kConnected ∧ ∃ called returned removed,
      useAll {s with loop := s.loop.connectDestroyed} callback = some called ∧ called.loop.runFrame .none = some returned ∧
      returned.runFrame .none = some removed ∧ later = {called with loop := removed,destroyed := true}) ∨
    s.loop.conn.state ≠ .kConnected ∧ later = {s with loop := s.loop.connectDestroyed,destroyed := true} := by
  unfold Teardown.connectDestroyed at taken
  split at taken
  · rename_i connected
    obtain ⟨called,used,taken⟩ := Option.bind_eq_some_iff.mp taken
    obtain ⟨returned,first,taken⟩ := Option.bind_eq_some_iff.mp taken
    obtain ⟨removed,second,taken⟩ := Option.bind_eq_some_iff.mp taken
    cases taken
    exact .inl ⟨connected,called,returned,removed,used,first,second,rfl⟩
  · rename_i other
    cases taken
    exact .inr ⟨other,rfl⟩

-- Inside connectDestroyed, while connectionCallback_ runs.
structure Ending (fd : Nat) (s : Teardown) : Prop where
  watched : Watched fd s.loop
  down : Down s.loop
  frames : ∃ rest, s.loop.frames = .userCode :: .remove :: rest

theorem Ending.use (old : Ending fd s) (u : Use) (taken : s.use u = some later) : Ending fd later := by
  have closed := old.down.state
  cases u with
  | send message result =>
    obtain ⟨loop,used,same⟩ := Option.map_eq_some_iff.mp taken
    rw [← same]
    cases ConnLoop.perform_parts used with
    | send connected _ _ =>
      rw [closed] at connected
      cases connected
    | refused => exact old
  | shutdown =>
    simp only [Teardown.use,perform,ConnLoop.perform,ConnLoop.shutdown,closed] at taken
    cases taken
    exact old
  | forceClose =>
    simp only [Teardown.use,perform,ConnLoop.perform,ConnLoop.forceClose,closed] at taken
    cases taken
    exact old
  | forceCloseWithDelay =>
    simp only [Teardown.use,forceCloseWithDelay,closed] at taken
    cases taken
    exact old
  | inputBuffer op =>
    obtain ⟨loop,used,same⟩ := Option.map_eq_some_iff.mp taken
    rw [← same]
    cases ConnLoop.perform_parts used with
    | inputBuffer => exact ⟨old.watched.same rfl rfl,⟨old.down.state,old.down.empty,old.down.down⟩,old.frames⟩

theorem Ending.useAll (old : Ending fd s) (uses : List Use) (taken : useAll s uses = some later) : Ending fd later :=
  useAll_keeps uses (fun _ u _ old used => old.use u used) old taken

theorem destroyed_connected (old : Ready fd s.loop) (connected : s.loop.conn.state = .kConnected)
    (taken : s.connectDestroyed callback = some later) : TornDown later.loop := by
  have alive := old.alive (by rw [connected]; decide)
  have marked : Watched fd (s.loop.setState .kDisconnected) := old.watched.same rfl rfl
  have closed : s.loop.connectDestroyed = ({(s.loop.setState .kDisconnected).request .disableAll with
      downs := s.loop.downs + 1}).call [.userCode,.remove] := by
    unfold ConnLoop.connectDestroyed
    rw [if_pos connected]
    rfl
  have ending : Ending fd {s with loop := s.loop.connectDestroyed} := by
    rw [closed]
    refine ⟨(marked.request .disableAll (.inl (reads_nonempty alive.reading))).same rfl rfl,⟨rfl,?_,?_⟩,_,rfl⟩
    · exact EPollPoller.updateChannel_events _ _ _
    · exact congrArg (· + 1) alive.down
  rcases connectDestroyed_parts taken with ⟨_,called,returned,removed,used,first,second,rfl⟩ | ⟨other,_⟩
  swap
  · exact absurd connected other
  have ended := ending.useAll callback used
  obtain ⟨rest,frames⟩ := ended.frames
  simp only [ConnLoop.runFrame,frames] at first
  cases first
  simp only [ConnLoop.runFrame,ConnLoop.pop] at second
  cases second
  have down : Down (called.loop.pop rest) := ⟨ended.down.state,ended.down.empty,ended.down.down⟩
  exact down.remove (ended.watched.same rfl rfl)

-- The condition: connectDestroyed is not executed in kDisconnecting, and no
-- event enters handleClose once the connection is closed.
def Clean (s : Teardown) : Label → Prop
  | .connectDestroyed _ => s.loop.conn.state ≠ .kDisconnecting
  | .frame answer => s.loop.entersHandleClose (.frame answer) → s.loop.conn.state ≠ .kDisconnected
  | _ => True

-- Each label with what it needs and what it leaves.
inductive Moves (s : Teardown) : Label → Teardown → Prop where
  | use (u : Use) {used : Teardown} : s.use u = some used → Moves s (.use u) used
  | epoll_wait : Moves s (.epoll_wait revents) {s with loop := {s.loop with active := some revents}}
  | handleEvent : Moves s .handleEvent {s with loop := {s.loop with active := none,frames := callbacks revents}}
  | frame : s.loop.runFrame answer = some ran → Moves s (.frame answer) {s with loop := ran}
  | functor : s.loop.pendingFunctors = cb :: rest →
      Moves s .functor {s with loop := {s.loop with pendingFunctors := rest}.runFunctor cb}
  | timer : Moves s .timer {s with loop := s.loop.forceCloseInLoop,timers := s.timers - 1}
  | connectDestroyed {done : Teardown} : s.connectDestroyed callback = some done → Moves s (.connectDestroyed callback) done

theorem next_moves (taken : s.next label = some later) : s.destroyed = false ∧ Moves s label later := by
  unfold Teardown.next at taken
  split at taken
  · cases taken
  · rename_i lives
    refine ⟨Bool.not_eq_true _ ▸ lives,?_⟩
    cases label with
    | use u =>
      simp only at taken
      split at taken
      · exact .use u taken
      · cases taken
    | epoll_wait revents =>
      simp only at taken
      split at taken
      · cases taken
        exact .epoll_wait
      · cases taken
    | handleEvent =>
      simp only at taken
      split at taken
      · cases taken
        exact .handleEvent
      · cases taken
    | frame answer =>
      obtain ⟨loop,ran,same⟩ := Option.map_eq_some_iff.mp taken
      rw [← same]
      exact .frame ran
    | functor =>
      simp only at taken
      split at taken
      · rename_i queue
        cases taken
        exact .functor queue
      · cases taken
    | timer =>
      simp only at taken
      split at taken
      · cases taken
        exact .timer
      · cases taken
    | connectDestroyed callback =>
      simp only at taken
      split at taken
      · exact .connectDestroyed taken
      · cases taken

-- Every step keeps the buffers in order.
def Streams (s : Teardown) : Prop := ∃ sent, Stream sent s.loop

theorem Streams.use (old : Streams s) (u : Use) (taken : s.use u = some later) : Streams later := by
  obtain ⟨sent,stream⟩ := old
  have kept : ∀ call, s.perform call = some later → Streams later := by
    intro call performed
    obtain ⟨loop,ran,same⟩ := Option.map_eq_some_iff.mp performed
    rw [← same]
    exact ⟨_,stream.perform call ran⟩
  cases u with
  | send message result => exact kept _ taken
  | shutdown => exact kept _ taken
  | forceClose => exact kept _ taken
  | inputBuffer op => exact kept _ taken
  | forceCloseWithDelay =>
    cases taken
    unfold forceCloseWithDelay
    split
    · rename_i live
      exact ⟨sent,stream.frame stream.input rfl rfl rfl fun _ => ⟨Live.not_disconnected live,rfl⟩⟩
    · exact ⟨sent,stream⟩

theorem Streams.useAll (old : Streams s) (uses : List Use) (taken : useAll s uses = some later) : Streams later :=
  useAll_keeps uses (fun _ u _ old used => old.use u used) old taken

theorem Streams.step (old : Streams s) (taken : Moves s label later) : Streams later := by
  cases taken with
  | use u used => exact old.use u used
  | epoll_wait =>
    obtain ⟨sent,stream⟩ := old
    exact ⟨sent,stream.frame stream.input rfl rfl rfl fun live => ⟨live,rfl⟩⟩
  | handleEvent =>
    obtain ⟨sent,stream⟩ := old
    exact ⟨sent,stream.frame stream.input rfl rfl rfl fun live => ⟨live,rfl⟩⟩
  | frame ran =>
    obtain ⟨sent,stream⟩ := old
    exact ⟨sent,stream.runFrame ran⟩
  | @functor cb rest queue =>
    obtain ⟨sent,stream⟩ := old
    have popped : Stream sent {s.loop with pendingFunctors := rest} := stream.frame stream.input rfl rfl rfl fun live => ⟨live,rfl⟩
    exact ⟨sent,popped.runFunctor cb⟩
  | timer =>
    obtain ⟨sent,stream⟩ := old
    exact ⟨sent,stream.forceCloseInLoop⟩
  | connectDestroyed destroyed =>
    have begun : Streams {s with loop := s.loop.connectDestroyed} := by
      obtain ⟨sent,stream⟩ := old
      exact ⟨sent,stream.connectDestroyed⟩
    rcases connectDestroyed_parts destroyed with ⟨_,called,returned,removed,used,first,second,rfl⟩ | ⟨_,rfl⟩
    · obtain ⟨sent,stream⟩ := begun.useAll _ used
      exact ⟨sent,(stream.runFrame first).runFrame second⟩
    · exact begun

-- Calls on the connection do not call connectionCallback_.
theorem use_downs (old : Streams s) (u : Use) (taken : s.use u = some later) :
    later.loop.downs = s.loop.downs ∧ later.destroyed = s.destroyed := by
  obtain ⟨sent,stream⟩ := old
  cases u with
  | send message result =>
    obtain ⟨loop,ran,same⟩ := Option.map_eq_some_iff.mp taken
    rw [← same]
    cases ConnLoop.perform_parts ran with
    | send _ fits sending => exact ⟨(sendInLoop_exchanged stream.output fits sending).downs,rfl⟩
    | refused => exact ⟨rfl,rfl⟩
  | shutdown =>
    cases taken
    unfold ConnLoop.shutdown
    split
    · obtain ⟨issued,same⟩ := shutdownInLoop_exchange (s.loop.setState .kDisconnecting)
      rw [same]
      exact ⟨rfl,rfl⟩
    · exact ⟨rfl,rfl⟩
  | forceClose =>
    cases taken
    unfold ConnLoop.forceClose
    split
    · exact ⟨rfl,rfl⟩
    · exact ⟨rfl,rfl⟩
  | forceCloseWithDelay =>
    cases taken
    unfold forceCloseWithDelay
    split
    · exact ⟨rfl,rfl⟩
    · exact ⟨rfl,rfl⟩
  | inputBuffer op =>
    obtain ⟨loop,ran,same⟩ := Option.map_eq_some_iff.mp taken
    rw [← same]
    cases ConnLoop.perform_parts ran with
    | inputBuffer => exact ⟨rfl,rfl⟩

theorem forceCloseInLoop_downs (w : ConnLoop) : w.downs ≤ w.forceCloseInLoop.downs := by
  unfold ConnLoop.forceCloseInLoop
  split
  · exact Nat.le_succ _
  · exact Nat.le_refl _

theorem connectDestroyed_downs (w : ConnLoop) : w.downs ≤ w.connectDestroyed.downs := by
  unfold ConnLoop.connectDestroyed
  split
  · exact Nat.le_succ _
  · exact Nat.le_refl _

theorem handleRead_downs (read : w.handleRead result = some after) : w.downs ≤ after.downs := by
  obtain ⟨inputBuffer,_,read⟩ := Option.bind_eq_some_iff.mp read
  match result with
  | .bytes (_ :: _) =>
    cases read
    exact Nat.le_refl _
  | .bytes [] =>
    cases read
    exact Nat.le_succ _
  | .error =>
    cases read
    exact Nat.le_refl _

theorem runFrame_downs {sent : List (List UInt8)} (stream : Stream sent w) (taken : w.runFrame answer = some after) :
    w.downs ≤ after.downs := by
  unfold ConnLoop.runFrame at taken
  split at taken
  · cases taken
    exact Nat.le_succ _
  · cases taken
    exact Nat.le_refl _
  · split at taken
    · have more := handleRead_downs taken
      exact more
    · cases taken
  · split at taken
    · rename_i rest result _ fits
      exact Nat.le_of_eq (handleWrite_exchanged (stream.pop rest).output fits taken).downs.symm
    · cases taken
  · cases taken
    exact Nat.le_refl _
  · cases taken
    exact Nat.le_refl _
  · cases taken
    exact Nat.le_refl _
  · cases taken

theorem runFunctor_downs (w : ConnLoop) (cb : Functor) : w.downs ≤ (w.runFunctor cb).downs := by
  cases cb with
  | writeCompleteCallback => exact Nat.le_refl _
  | highWaterMarkCallback len => exact Nat.le_refl _
  | forceCloseInLoop => exact forceCloseInLoop_downs w
  | connectDestroyed => exact connectDestroyed_downs w

theorem useAll_downs (old : Streams s) (uses : List Use) (taken : useAll s uses = some later) :
    later.loop.downs = s.loop.downs := by
  have step : ∀ t u after, (Streams t ∧ t.loop.downs = s.loop.downs) → Teardown.use t u = some after →
      Streams after ∧ after.loop.downs = s.loop.downs := by
    intro t u after kept used
    exact ⟨kept.1.use u used,(use_downs kept.1 u used).1.trans kept.2⟩
  exact (useAll_keeps uses step ⟨old,rfl⟩ taken).2

theorem Moves.downs (taken : Moves s label later) (old : Streams s) : s.loop.downs ≤ later.loop.downs := by
  cases taken with
  | use u used => exact Nat.le_of_eq (use_downs old u used).1.symm
  | epoll_wait => exact Nat.le_refl _
  | handleEvent => exact Nat.le_refl _
  | frame ran =>
    obtain ⟨sent,stream⟩ := old
    exact runFrame_downs stream ran
  | @functor cb rest _ => exact runFunctor_downs {s.loop with pendingFunctors := rest} cb
  | timer => exact forceCloseInLoop_downs _
  | connectDestroyed destroyed =>
    have begun := connectDestroyed_downs s.loop
    rcases connectDestroyed_parts destroyed with ⟨_,called,returned,removed,used,first,second,rfl⟩ | ⟨_,rfl⟩
    · obtain ⟨sent,stream⟩ := old
      have start : Streams {s with loop := s.loop.connectDestroyed} := ⟨sent,stream.connectDestroyed⟩
      have same := useAll_downs start _ used
      obtain ⟨more,streams⟩ := start.useAll _ used
      have one := runFrame_downs streams first
      have two := runFrame_downs (streams.runFrame first) second
      dsimp only at same ⊢
      omega
    · exact begun

-- Up to the call of connectDestroyed the connection is open or closed in
-- order; after it, torn down.
structure Sound (fd : Nat) (s : Teardown) : Prop where
  streams : Streams s
  before : s.destroyed = false → Ready fd s.loop
  returned : s.destroyed = true → TornDown s.loop

-- What a step can only break: no second DOWN, and no return of
-- connectDestroyed in a state other than kDisconnected.
def Good (s : Teardown) : Prop := s.loop.downs ≤ 1 ∧ (s.destroyed = true → s.loop.conn.state = .kDisconnected)

theorem Ready.use (old : Ready fd s.loop) (streams : Streams s) (u : Use) (taken : s.use u = some later) : Ready fd later.loop := by
  obtain ⟨sent,stream⟩ := streams
  cases u with
  | send message result =>
    obtain ⟨loop,ran,same⟩ := Option.map_eq_some_iff.mp taken
    rw [← same]
    exact old.send stream ran
  | shutdown =>
    cases taken
    exact old.shutdown
  | forceClose =>
    cases taken
    exact old.forceClose
  | forceCloseWithDelay =>
    cases taken
    unfold forceCloseWithDelay
    split
    · rename_i live
      exact old.disconnecting live
    · exact old
  | inputBuffer op =>
    obtain ⟨loop,ran,same⟩ := Option.map_eq_some_iff.mp taken
    rw [← same]
    exact old.useInput ran

theorem destroyed_closed (old : Ready fd s.loop) (closed : s.loop.conn.state = .kDisconnected)
    (taken : s.connectDestroyed callback = some later) : TornDown later.loop := by
  rcases connectDestroyed_parts taken with ⟨connected,_⟩ | ⟨other,rfl⟩
  · cases closed.symm.trans connected
  · unfold ConnLoop.connectDestroyed
    rw [if_neg other]
    exact (old.down closed).remove old.watched

theorem destroyed_disconnecting (disconnecting : s.loop.conn.state = .kDisconnecting)
    (taken : s.connectDestroyed callback = some later) : later.loop.conn.state = .kDisconnecting := by
  rcases connectDestroyed_parts taken with ⟨connected,_⟩ | ⟨other,rfl⟩
  · cases disconnecting.symm.trans connected
  · unfold ConnLoop.connectDestroyed
    rw [if_neg other]
    exact disconnecting

theorem connectDestroyed_over (taken : s.connectDestroyed callback = some later) : later.destroyed = true := by
  rcases connectDestroyed_parts taken with ⟨_,_,_,_,_,_,_,rfl⟩ | ⟨_,rfl⟩
  · rfl
  · rfl

theorem Ready.connectDestroyed (old : Ready fd s.loop) (met : s.loop.conn.state ≠ .kDisconnecting)
    (taken : s.connectDestroyed callback = some later) : TornDown later.loop := by
  rcases old.phase with alive | down
  · rcases alive.live with connected | disconnecting
    · exact destroyed_connected old connected taken
    · exact absurd disconnecting met
  · exact destroyed_closed old down.state taken

theorem Sound.moves (old : Sound fd s) (lives : s.destroyed = false) (met : Clean s label) (taken : Moves s label later) :
    Sound fd later := by
  have ready := old.before lives
  have streams := old.streams.step taken
  have stays : later.destroyed = s.destroyed → Ready fd later.loop → Sound fd later := fun same kept =>
    ⟨streams,fun _ => kept,fun returned => (by cases (same.trans lives).symm.trans returned)⟩
  cases taken with
  | use u used => exact stays (use_downs old.streams u used).2 (Ready.use ready old.streams u used)
  | epoll_wait => exact stays rfl (ready.frame rfl rfl rfl rfl ready.frames ready.functors)
  | @handleEvent revents => exact stays rfl (ready.frame rfl rfl rfl rfl (callbacks_own revents).2 ready.functors)
  | frame ran =>
    obtain ⟨sent,stream⟩ := old.streams
    exact stays rfl (ready.runFrame stream met ran)
  | functor queue => exact stays rfl (ready.runFunctor queue)
  | timer => exact stays rfl ready.forceCloseInLoop
  | connectDestroyed done =>
    exact ⟨streams,fun lives => (by cases lives.symm.trans (connectDestroyed_over done)),fun _ => Ready.connectDestroyed ready met done⟩

theorem Sound.good (old : Sound fd s) : Good s := by
  cases lives : s.destroyed with
  | false =>
    refine ⟨?_,fun returned => (by cases lives.symm.trans returned)⟩
    rcases (old.before lives).phase with alive | down
    · exact Nat.le_trans (Nat.le_of_eq alive.down) (Nat.zero_le 1)
    · exact Nat.le_of_eq down.down
  | true =>
    have torn := old.returned lives
    exact ⟨Nat.le_of_eq torn.down,fun _ => torn.state⟩

theorem eof_downs (read : w.handleRead (.bytes []) = some after) : after.downs = w.downs + 1 := by
  unfold ConnLoop.handleRead at read
  obtain ⟨inputBuffer,_,read⟩ := Option.bind_eq_some_iff.mp read
  cases read
  rfl

theorem entered_downs (enters : w.entersHandleClose (.frame answer)) (taken : w.runFrame answer = some after) :
    after.downs = w.downs + 1 := by
  match answer with
  | .none =>
    obtain ⟨rest,top⟩ := List.head?_eq_some_iff.mp enters
    simp only [ConnLoop.runFrame,top] at taken
    cases taken
    rfl
  | .read (.bytes []) =>
    obtain ⟨rest,top⟩ := List.head?_eq_some_iff.mp enters
    simp only [ConnLoop.runFrame,top] at taken
    split at taken
    · have again := eof_downs taken
      exact again
    · cases taken

-- A second handleClose is a second DOWN, and kDisconnecting is kept.
theorem Sound.broken (old : Sound fd s) (lives : s.destroyed = false) (missed : ¬Clean s label) (taken : Moves s label later) :
    ¬Good later := by
  intro good
  have ready := old.before lives
  cases taken with
  | connectDestroyed done =>
    have disconnecting : s.loop.conn.state = .kDisconnecting := not_not.mp missed
    have kept := destroyed_disconnecting disconnecting done
    cases kept.symm.trans (good.2 (connectDestroyed_over done))
  | frame ran =>
    obtain ⟨enters,closed⟩ := Classical.not_imp.mp missed
    have once := (ready.down (not_not.mp closed)).down
    have again := entered_downs enters ran
    have most := good.1
    dsimp only at most
    omega
  | _ => exact missed trivial

-- What has gone wrong stays wrong.
theorem Moves.back (streams : Streams s) (lives : s.destroyed = false) (taken : Moves s label later) (good : Good later) : Good s :=
  ⟨Nat.le_trans (taken.downs streams) good.1,fun returned => (by cases lives.symm.trans returned)⟩

theorem start_sound (origin : machine.start s) : ∃ fd, Sound fd s := by
  obtain ⟨fd,highWaterMark,complete,high,rfl⟩ := origin
  have kept := established_kept (fun _ => true) fd highWaterMark complete high
  have alive := kept.open_or (.inl rfl)
  have ready : Ready fd (established fd highWaterMark complete high).loop :=
    ⟨kept.watched,.inl ⟨alive.live,alive.reading.symm,alive.fresh.2.1⟩,alive.own.2,alive.functors⟩
  exact ⟨fd,⟨_,established_stream fd highWaterMark complete high⟩,fun _ => ready,fun returned => (by cases returned)⟩

theorem torn_down_iff {final : Teardown} {labels : List Label} (origin : machine.start s)
    (ran : machine.run s labels = some final) (destroyed : final.destroyed = true) :
    TornDown final.loop ↔ machine.Meets Clean s labels := by
  obtain ⟨fd,valid⟩ := start_sound origin
  have kept : ∀ s label after, Sound fd s → Clean s label → machine.next s label = some after → Sound fd after := by
    intro s label after old met taken
    obtain ⟨lives,moves⟩ := next_moves taken
    exact old.moves lives met moves
  have broken : ∀ s label after, Sound fd s → ¬Clean s label → machine.next s label = some after → ¬Good after := by
    intro s label after old missed taken
    obtain ⟨lives,moves⟩ := next_moves taken
    exact old.broken lives missed moves
  have streams : ∀ s label after, Streams s → machine.next s label = some after → Streams after :=
    fun _ _ _ old taken => old.step (next_moves taken).2
  have back : ∀ s label after, Streams s → machine.next s label = some after → Good after → Good s := by
    intro s label after old taken good
    obtain ⟨lives,moves⟩ := next_moves taken
    exact moves.back old lives good
  have throughout := Machine.throughout_iff_meets (fun _ old => Sound.good old) kept broken valid ran
  have last := Machine.throughout_iff_last streams back valid.streams ran
  constructor
  · intro torn
    have good : Good final := ⟨Nat.le_of_eq torn.down,fun _ => torn.state⟩
    exact throughout.mp (last.mpr good)
  · intro met
    exact (Machine.run_meets kept valid met ran).returned destroyed

instance : ∀ label, Decidable (w.entersHandleClose label)
  | .frame .none => inferInstanceAs (Decidable (_ = _))
  | .frame (.read (.bytes [])) => inferInstanceAs (Decidable (_ = _))
  | .functor => inferInstanceAs (Decidable (_ ∧ (_ ∨ _)))
  | .frame (.read (.bytes (_ :: _))) | .frame (.read .error) | .frame (.write _) => .isFalse id
  | .user _ | .epoll_wait _ | .handleEvent | .removeConnectionInLoop => .isFalse id

instance : ∀ label, Decidable (Clean s label)
  | .connectDestroyed _ => inferInstanceAs (Decidable (_ ≠ _))
  | .frame _ => inferInstanceAs (Decidable (_ → _ ≠ _))
  | .use _ | .epoll_wait _ | .handleEvent | .functor | .timer => .isTrue trivial

def fresh : Teardown := ⟨(established 7 100 false false).loop,0,false⟩

theorem fresh_start : machine.start fresh := ⟨7,100,false,false,rfl⟩

theorem torn_down_from_connected : ∃ final, machine.run fresh
      [.frame .none,.use (.send [1,2] (.wrote 2)),.connectDestroyed [.forceClose]] = some final ∧ TornDown final.loop := by
  have found : (machine.run fresh
      [.frame .none,.use (.send [1,2] (.wrote 2)),.connectDestroyed [.forceClose]]).map (·.destroyed) = some true := by
    decide +kernel
  obtain ⟨final,ran,destroyed⟩ := Option.map_eq_some_iff.mp found
  exact ⟨final,ran,(torn_down_iff fresh_start ran destroyed).mpr (by decide +kernel)⟩

-- After shutdown() connectDestroyed only removes the channel, with its events.
-- And the timer of forceCloseWithDelay closes a connection whose end of stream
-- is already reported: handleClose runs twice.
theorem not_torn_down_after_shutdown_or_late_timer :
    (∃ final, machine.run fresh [.frame .none,.use .shutdown,.connectDestroyed []] = some final ∧
      final.destroyed = true ∧ final.loop.conn.state = .kDisconnecting ∧ final.loop.conn.channel.isNoneEvent = false ∧
      final.loop.downs = 0 ∧ ¬TornDown final.loop) ∧
    ∃ final, machine.run fresh [.frame .none,.use .forceCloseWithDelay,.epoll_wait EPOLLIN,.timer,.frame .none,.frame .none,
        .handleEvent,.frame (.read (.bytes [])),.frame .none,.frame .none,.connectDestroyed []] = some final ∧
      final.destroyed = true ∧ final.loop.downs = 2 ∧ ¬TornDown final.loop := by
  have first : (machine.run fresh [.frame .none,.use .shutdown,.connectDestroyed []]).map (fun s =>
      (s.destroyed,s.loop.conn.state,s.loop.conn.channel.isNoneEvent,s.loop.downs)) =
      some (true,.kDisconnecting,false,0) := by decide +kernel
  have second : (machine.run fresh [.frame .none,.use .forceCloseWithDelay,.epoll_wait EPOLLIN,.timer,.frame .none,
      .frame .none,.handleEvent,.frame (.read (.bytes [])),.frame .none,.frame .none,.connectDestroyed []]).map
      (fun s => (s.destroyed,s.loop.downs)) = some (true,2) := by decide +kernel
  obtain ⟨one,ran,parts⟩ := Option.map_eq_some_iff.mp first
  obtain ⟨two,ran_two,parts_two⟩ := Option.map_eq_some_iff.mp second
  simp only [Prod.mk.injEq] at parts parts_two
  obtain ⟨destroyed,state,events,downs⟩ := parts
  obtain ⟨destroyed_two,downs_two⟩ := parts_two
  refine ⟨⟨one,ran,destroyed,state,events,downs,?_⟩,⟨two,ran_two,destroyed_two,downs_two,?_⟩⟩
  · intro torn
    cases downs.symm.trans torn.down
  · intro torn
    cases downs_two.symm.trans torn.down

end Teardown
end NewMuduo.ConnLoop
