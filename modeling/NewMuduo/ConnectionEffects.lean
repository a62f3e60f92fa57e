import NewMuduo.ConnectionClose

namespace NewMuduo

-- The write takes data or would block.
def WriteResult.goesOn : WriteResult → Prop
  | .wrote _ => True
  | .error errno => errno = .EWOULDBLOCK

namespace ConnLoop
variable {w after : ConnLoop} {s reached : Life} {sent : List (List UInt8)} {fd : Nat} {admits : BitVec 32 → Bool}

-- reading_ is the business of startRead and stopRead alone; state_ of shutdown
-- and forceClose, as long as nothing closes.
def turnsReading : Label → Prop
  | .user .startRead | .user .stopRead => True
  | _ => False

def disconnects : Label → Prop
  | .user .shutdown | .user .forceClose => True
  | _ => False

-- A step that ends in shutdownWrite: shutdown and shutdownInLoop with nothing
-- to write, and the end of a backlog in handleWrite.
def shutsDown (w : ConnLoop) : Label → Prop
  | .user .shutdown => w.conn.state = .kConnected ∧ w.conn.channel.isWriting = false
  | .user .shutdownInLoop => w.conn.channel.isWriting = false
  | .frame (.write (.wrote n)) => w.frames.head? = some .write ∧ w.conn.channel.isWriting = true ∧ 0 < n ∧
      n = w.conn.outputBuffer.readableBytes ∧ w.conn.state = .kDisconnecting
  | _ => False

-- What a step does not touch.
structure Aside (label : Label) (w after : ConnLoop) : Prop where
  reading : ¬turnsReading label → after.conn.reading = w.conn.reading
  state : ¬w.entersHandleClose label → ¬disconnects label → after.conn.state = w.conn.state
  handleCloses : ¬w.entersHandleClose label → after.handleCloses = w.handleCloses
  shutdowns : ¬w.shutsDown label → after.shutdowns = w.shutdowns

theorem Aside.untouched {label : Label} (reading : after.conn.reading = w.conn.reading) (state : after.conn.state = w.conn.state)
    (handleCloses : after.handleCloses = w.handleCloses) (shutdowns : after.shutdowns = w.shutdowns) : Aside label w after :=
  ⟨fun _ => reading,fun _ _ => state,fun _ => handleCloses,fun _ => shutdowns⟩

theorem Aside.refl (label : Label) (w : ConnLoop) : Aside label w w := .untouched rfl rfl rfl rfl

-- Sending and writing change neither reading_ nor state_.
theorem Exchanged.aside (exchanged : Exchanged w after) (unshut : ¬w.shutsDown label → after.shutdowns = w.shutdowns) :
    Aside label w after := by
  cases exchanged with
  | alone => exact ⟨fun _ => rfl,fun _ _ => rfl,fun _ => rfl,unshut⟩
  | enableWriting => exact ⟨fun _ => rfl,fun _ _ => rfl,fun _ => rfl,unshut⟩
  | disableWriting => exact ⟨fun _ => rfl,fun _ _ => rfl,fun _ => rfl,unshut⟩

theorem queueWriteComplete_shutdowns (w : ConnLoop) : w.queueWriteComplete.shutdowns = w.shutdowns := by
  unfold queueWriteComplete
  split
  · rfl
  · rfl

theorem sendInLoop_shutdowns (valid : w.conn.outputBuffer.Valid) (fits : result.Fits data.length)
    (sending : w.sendInLoop data result = some after) : after.shutdowns = w.shutdowns := by
  unfold sendInLoop at sending
  split at sending
  · cases Option.some.inj sending; rfl
  · obtain ⟨notices,nwrote,remaining,_,whole,_,direct⟩ := directWrite_parts (w := w) data result fits
    rw [direct] at sending
    simp only [show remaining ≤ data.length by omega,if_true] at sending
    split at sending
    · obtain ⟨queued,outputBuffer,_,_,_,buffered⟩ := bufferRest_parts
        (w := {w with taken := w.taken ++ data.take nwrote,pendingFunctors := w.pendingFunctors ++ notices})
        data nwrote remaining valid
      rw [buffered] at sending
      cases sending
      dsimp only
      split
      · rfl
      · rfl
    · cases Option.some.inj sending; rfl

theorem shutdownInLoop_writing (writing : w.conn.channel.isWriting = true) : w.shutdownInLoop = w := by
  unfold shutdownInLoop
  rw [writing]
  rfl

theorem written_shutdowns (other : w.conn.state ≠ .kDisconnecting) : w.written.shutdowns = w.shutdowns := by
  have same : (w.request .disableWriting).queueWriteComplete.conn.state = w.conn.state := by
    obtain ⟨_,_,queued⟩ := queueWriteComplete_notices (w.request .disableWriting)
    rw [queued]
    rfl
  unfold written
  dsimp only
  rw [same,if_neg other]
  exact queueWriteComplete_shutdowns _

theorem handleWrite_shutdowns (valid : w.conn.outputBuffer.Valid) (fits : result.Fits w.conn.outputBuffer.readableBytes)
    (unshut : ∀ n, result = .wrote n → w.conn.channel.isWriting = true → 0 < n →
      n = w.conn.outputBuffer.readableBytes → w.conn.state ≠ .kDisconnecting)
    (wrote : w.handleWrite result = some after) : after.shutdowns = w.shutdowns := by
  unfold handleWrite at wrote
  split at wrote
  · rename_i writing
    cases result with
    | error errno => cases wrote; rfl
    | wrote n =>
      dsimp only at wrote
      split at wrote
      · rename_i some
        obtain ⟨outputBuffer,retrieved,kept,contents⟩ := Buffer.retrieve_yields valid fits
        rw [retrieved] at wrote
        simp only [Option.bind_eq_bind,Option.bind_some,Option.some.injEq] at wrote
        rw [← wrote]
        split
        · rename_i drained
          refine written_shutdowns (unshut n rfl writing some ?_)
          have left := (Buffer.readable_length kept).trans drained
          rw [contents,List.length_drop,Buffer.readable_length valid] at left
          have within : n ≤ w.conn.outputBuffer.readableBytes := fits
          omega
        · rfl
      · cases wrote; rfl
  · cases wrote; rfl

theorem sendInLoop_aside (stream : Stream sent w) (fits : result.Fits data.length)
    (sending : w.sendInLoop data result = some after) : Aside label w after :=
  (sendInLoop_exchanged stream.output fits sending).aside fun _ => sendInLoop_shutdowns stream.output fits sending

theorem shutdown_aside (w : ConnLoop) : Aside (.user .shutdown) w w.shutdown := by
  unfold ConnLoop.shutdown
  split
  · rename_i connected
    obtain ⟨issued,same⟩ := shutdownInLoop_exchange (w.setState .kDisconnecting)
    refine ⟨fun _ => ?_,fun _ alone => absurd trivial alone,fun _ => ?_,fun unshut => ?_⟩
    · rw [same]; rfl
    · rw [same]; rfl
    · have writing : (w.setState .kDisconnecting).conn.channel.isWriting = true := by
        by_contra idle
        exact unshut ⟨connected,Bool.not_eq_true _ ▸ idle⟩
      rw [shutdownInLoop_writing writing]
      rfl
  · exact .refl _ w

theorem shutdownInLoop_aside (w : ConnLoop) : Aside (.user .shutdownInLoop) w w.shutdownInLoop := by
  obtain ⟨issued,same⟩ := shutdownInLoop_exchange w
  refine ⟨fun _ => ?_,fun _ _ => ?_,fun _ => ?_,fun unshut => ?_⟩
  · rw [same]
  · rw [same]
  · rw [same]
  · rw [shutdownInLoop_writing (Bool.not_eq_false _ ▸ unshut)]

theorem perform_aside (stream : Stream sent w) (call : Call) (taken : w.perform call = some after) :
    Aside (.user call) w after := by
  cases perform_parts taken with
  | send _ fits sending | sendInLoop fits sending => exact sendInLoop_aside stream fits sending
  | refused => exact .refl _ w
  | shutdown => exact shutdown_aside w
  | shutdownInLoop => exact shutdownInLoop_aside w
  | forceClose =>
    unfold ConnLoop.forceClose
    split
    · exact ⟨fun _ => rfl,fun _ alone => absurd trivial alone,fun _ => rfl,fun _ => rfl⟩
    · exact .refl _ w
  | startRead =>
    unfold ConnLoop.startRead
    split
    · exact ⟨fun alone => absurd trivial alone,fun _ _ => rfl,fun _ => rfl,fun _ => rfl⟩
    · exact .refl _ w
  | stopRead =>
    unfold ConnLoop.stopRead
    split
    · exact ⟨fun alone => absurd trivial alone,fun _ _ => rfl,fun _ => rfl,fun _ => rfl⟩
    · exact .refl _ w
  | inputBuffer => exact .untouched rfl rfl rfl rfl

theorem runFrame_aside (stream : Stream sent w) (taken : w.runFrame answer = some after) :
    Aside (.frame answer) w after := by
  have closes : w.entersHandleClose (.frame answer) → after.conn.reading = w.conn.reading →
      after.shutdowns = w.shutdowns → Aside (.frame answer) w after := fun enters reading shutdowns =>
    ⟨fun _ => reading,fun stays => absurd enters stays,fun stays => absurd enters stays,fun _ => shutdowns⟩
  unfold ConnLoop.runFrame at taken
  split at taken
  · rename_i found
    cases taken
    exact closes (by simp [entersHandleClose,found]) rfl rfl
  · cases taken; exact .untouched rfl rfl rfl rfl
  · rename_i rest result found
    split at taken
    · rename_i fits
      obtain ⟨inputBuffer,read,_⟩ := Buffer.readFd_yields stream.input result fits
      unfold ConnLoop.handleRead at taken
      rw [show (w.pop rest).conn.inputBuffer = w.conn.inputBuffer from rfl,read] at taken
      cases result with
      | bytes data =>
        cases data with
        | nil =>
          cases taken
          exact closes (by simp [entersHandleClose,found]) rfl rfl
        | cons byte more =>
          cases taken
          exact .untouched rfl rfl rfl rfl
      | error =>
        cases taken
        exact .untouched rfl rfl rfl rfl
    · cases taken
  · rename_i rest result found
    split at taken
    · rename_i fits
      have exchanged := handleWrite_exchanged (w := w.pop rest) stream.output fits taken
      have shutdowns : ¬w.shutsDown (.frame (.write result)) → after.shutdowns = w.shutdowns := by
        intro unshut
        refine handleWrite_shutdowns (w := w.pop rest) stream.output fits ?_ taken
        intro n same writing some whole disconnecting
        subst same
        exact unshut ⟨congrArg List.head? found,writing,some,whole,disconnecting⟩
      cases exchanged with
      | alone => exact ⟨fun _ => rfl,fun _ _ => rfl,fun _ => rfl,shutdowns⟩
      | enableWriting => exact ⟨fun _ => rfl,fun _ _ => rfl,fun _ => rfl,shutdowns⟩
      | disableWriting => exact ⟨fun _ => rfl,fun _ _ => rfl,fun _ => rfl,shutdowns⟩
    · cases taken
  · cases taken; exact .untouched rfl rfl rfl rfl
  · cases taken; exact .untouched rfl rfl rfl rfl
  · cases taken; exact .untouched rfl rfl rfl rfl
  · cases taken

theorem runFunctor_aside (found : w.pendingFunctors = cb :: rest) (unremoved : cb ≠ .connectDestroyed) :
    Aside .functor w ({w with pendingFunctors := rest}.runFunctor cb) := by
  cases cb with
  | writeCompleteCallback => exact .untouched rfl rfl rfl rfl
  | highWaterMarkCallback len => exact .untouched rfl rfl rfl rfl
  | forceCloseInLoop =>
    simp only [runFunctor,forceCloseInLoop]
    split
    · rename_i live
      have enters : w.entersHandleClose .functor := ⟨congrArg List.head? found,live⟩
      exact ⟨fun _ => rfl,fun stays => absurd enters stays,fun stays => absurd enters stays,fun _ => rfl⟩
    · exact .untouched rfl rfl rfl rfl
  | connectDestroyed => exact absurd rfl unremoved

-- connectDestroyed waits on a closed connection only.
theorem Kept.next_aside (old : Kept admits fd s.loop) (stream : Stream s.accepted s.loop)
    (taken : ConnLoop.next admits s label = some reached) : Aside label s.loop reached.loop := by
  cases next_step taken with
  | user use _ performed => exact perform_aside stream use performed
  | epoll_wait => exact .untouched rfl rfl rfl rfl
  | handleEvent => exact .untouched rfl rfl rfl rfl
  | frame ran => exact runFrame_aside stream ran
  | removeConnectionInLoop => exact .untouched rfl rfl rfl rfl
  | functor _ _ found =>
    rename_i cb rest _ _
    by_cases destroys : cb = .connectDestroyed
    · subst destroys
      have cl : Closed s.loop := by
        refine old.phase.resolve_left fun op => op.functors ?_
        rw [found]
        exact List.mem_cons_self
      have removes : ({s.loop with pendingFunctors := rest} : ConnLoop).runFunctor .connectDestroyed =
          ({s.loop with pendingFunctors := rest} : ConnLoop).remove :=
        if_neg (by rw [show ({s.loop with pendingFunctors := rest} : ConnLoop).conn.state = _ from cl.state]; decide)
      rw [removes]
      exact .untouched rfl rfl rfl rfl
    · exact runFunctor_aside found destroys

theorem shutdown_disconnects (w : ConnLoop) : w.shutdown.conn.state ≠ .kConnected := by
  unfold shutdown
  split
  · obtain ⟨issued,same⟩ := shutdownInLoop_exchange (w.setState .kDisconnecting)
    rw [same]
    exact fun connected => (by cases connected)
  · rename_i other
    exact other

-- state_ leaves kConnected for good.
theorem Kept.stays_disconnecting (old : Kept admits fd s.loop) (stream : Stream s.accepted s.loop)
    (stays : ¬s.loop.entersHandleClose label) (taken : ConnLoop.next admits s label = some reached)
    (before : s.loop.conn.state ≠ .kConnected) : reached.loop.conn.state ≠ .kConnected := by
  by_cases other : disconnects label
  · match label with
    | .user .shutdown =>
      cases next_step taken with
      | user _ _ performed =>
        cases performed
        exact shutdown_disconnects s.loop
    | .user .forceClose =>
      cases next_step taken with
      | user _ _ performed =>
        cases performed
        unfold ConnLoop.forceClose
        dsimp only
        split
        · exact fun connected => (by cases connected)
        · exact before
  · rw [(old.next_aside stream taken).state stays other]
    exact before

-- SHUT_WR finds the backlog that the step leaves.
theorem shutdownInLoop_issues (idle : w.conn.channel.isWriting = false) :
    w.shutdownInLoop = {w with shutdowns := w.shutdowns ++ [(w.conn.state,w.conn.outputBuffer.readable)]} := by
  unfold shutdownInLoop
  rw [idle]
  rfl

theorem written_issues (disconnecting : w.conn.state = .kDisconnecting) :
    w.written.shutdowns = w.shutdowns ++ [(w.written.conn.state,w.written.conn.outputBuffer.readable)] := by
  obtain ⟨notices,_,queued⟩ := queueWriteComplete_notices (w.request .disableWriting)
  have idle : (w.request .disableWriting).conn.channel.isWriting = false :=
    (request_isWriting _).trans Channel.disableWriting_writing
  have ends : ∃ noted : ConnLoop, w.written = noted.shutdownInLoop ∧ noted.conn.channel.isWriting = false ∧
      noted.shutdowns = w.shutdowns := by
    unfold written
    rw [queued]
    exact ⟨_,if_pos disconnecting,idle,rfl⟩
  obtain ⟨noted,ends,idle,before⟩ := ends
  rw [ends,shutdownInLoop_issues idle,before]

theorem handleWrite_issues (valid : w.conn.outputBuffer.Valid) (writing : w.conn.channel.isWriting = true)
    (some : 0 < n) (whole : n = w.conn.outputBuffer.readableBytes) (disconnecting : w.conn.state = .kDisconnecting)
    (wrote : w.handleWrite (.wrote n) = .some after) :
    after.shutdowns = w.shutdowns ++ [(after.conn.state,after.conn.outputBuffer.readable)] := by
  obtain ⟨outputBuffer,retrieved,kept,contents⟩ := Buffer.retrieve_yields valid (Nat.le_of_eq whole)
  have drained : outputBuffer.readableBytes = 0 := by
    rw [← Buffer.readable_length kept,contents,List.length_drop,Buffer.readable_length valid,whole,Nat.sub_self]
  unfold handleWrite at wrote
  rw [if_pos writing] at wrote
  simp only [if_pos some,retrieved,Option.bind_eq_bind,Option.bind_some,if_pos drained,Option.some.injEq] at wrote
  rw [← wrote]
  exact written_issues disconnecting

theorem next_issues (stream : Stream s.accepted s.loop) (issues : s.loop.shutsDown label)
    (taken : next admits s label = some reached) : reached.loop.shutdowns =
      s.loop.shutdowns ++ [(reached.loop.conn.state,reached.loop.conn.outputBuffer.readable)] := by
  match label with
  | .user .shutdown =>
    obtain ⟨connected,idle⟩ := issues
    cases next_step taken with
    | user _ _ performed =>
      cases performed
      unfold ConnLoop.shutdown
      rw [if_pos connected,shutdownInLoop_issues (w := s.loop.setState .kDisconnecting) idle]
      rfl
  | .user .shutdownInLoop =>
    cases next_step taken with
    | user _ _ performed =>
      cases performed
      rw [shutdownInLoop_issues issues]
  | .frame (.write (.wrote n)) =>
    obtain ⟨found,writing,some,whole,disconnecting⟩ := issues
    obtain ⟨rest,found⟩ := List.head?_eq_some_iff.mp found
    cases next_step taken with
    | frame ran =>
      unfold runFrame at ran
      rw [found] at ran
      dsimp only at ran
      split at ran
      · exact handleWrite_issues (w := s.loop.pop rest) stream.output writing some whole disconnecting ran
      · cases ran

-- The messages that a step hands to the stream.
def Life.accepts (s : Life) : Label → List (List UInt8)
  | .user call => call.accepted s.loop
  | _ => []

theorem next_accepted (taken : next admits s label = some reached) : reached.accepted = s.accepted ++ s.accepts label := by
  cases next_step taken with
  | user => rfl
  | epoll_wait => exact (List.append_nil _).symm
  | handleEvent => exact (List.append_nil _).symm
  | frame => exact (List.append_nil _).symm
  | removeConnectionInLoop => exact (List.append_nil _).symm
  | functor => exact (List.append_nil _).symm

theorem accepts_goesOn {result : DirectResult} (goesOn : result.write.goesOn) : w.accepts result = true := by
  cases result with
  | wrote n => rfl
  | error errno logged =>
    cases goesOn
    simp [accepts]

-- A connection that has not been closed, and a step that does not close it.
theorem Kept.still_open (old : Kept admits fd w) (fresh : w.handleCloses = []) : Open admits w :=
  old.phase.resolve_right fun cl => cl.entered fresh

theorem Open.quiet (op : Open admits w) (stays : ¬w.entersHandleClose label) : w.Quiet label := by
  match label with
  | .user .startRead => exact op.not_disconnected
  | .user .stopRead => exact fun closed => absurd closed op.not_disconnected
  | .user (.send _ _) | .user (.sendInLoop _ _) | .user .shutdown => exact fun enters => enters.elim
  | .user .shutdownInLoop | .user .forceClose | .user (.inputBuffer _) => exact fun enters => enters.elim
  | .epoll_wait _ | .handleEvent | .removeConnectionInLoop => exact fun enters => enters.elim
  | .frame _ | .functor => exact fun enters => absurd enters stays

theorem Settled.goes_on (old : Settled fd s) (fresh : s.loop.handleCloses = []) (stays : ¬s.loop.entersHandleClose label)
    (taken : ConnLoop.next hangsUpAlone s label = some reached) : Settled fd reached ∧ reached.loop.handleCloses = [] := by
  have quiet := (old.1.still_open fresh).quiet stays
  exact ⟨old.next quiet taken,((old.1.next_aside old.2 taken).handleCloses stays).trans fresh⟩

end ConnLoop
end NewMuduo
