import NewMuduo.ConnectionClose

namespace NewMuduo.ConnLoop
variable {w after : ConnLoop} {s reached : Life} {fd : Nat} {admits : BitVec 32 → Bool}

-- The entry of the connection's descriptor in the kernel's list.
def entry (w : ConnLoop) : Option (Interest Unit) := w.poller.interest w.conn.channel.fd

def asksForInput (w : ConnLoop) : Bool := w.entry.any fun entry => hasAny entry.events EPOLLIN

def edgeTriggered (w : ConnLoop) : Bool := w.entry.any fun entry => hasAny entry.events EPOLLET

-- EPOLL_CTL_ADD or MOD with a mask that asks for input.
def rearmed (w after : ConnLoop) : Bool := after.asksForInput && after.entry != w.entry

-- A connection with the receive queue of its socket; edge is a readiness that
-- epoll_wait has not consumed.
structure Receiver where
  life : Life
  queue : List UInt8
  edge : Bool

namespace Receiver
variable {r : Receiver}

inductive Label where
  | arrive (data : List UInt8)
  | loop (label : ConnLoop.Label)

-- epoll_wait reports a ready descriptor that is asked about, and readv returns
-- what is queued as far as it fits; on an empty queue it fails or reads an end.
def obeys (r : Receiver) : ConnLoop.Label → Bool
  | .epoll_wait revents =>
    !(r.edge && !r.queue.isEmpty && r.life.loop.asksForInput) || hasAny revents EPOLLIN
  | .frame (.read result) =>
    if r.queue = [] then result.data = []
    else result = .bytes (r.queue.take r.life.loop.conn.inputBuffer.iovecBytes)
  | _ => true

def unread (r : Receiver) : ConnLoop.Label → List UInt8
  | .frame (.read _) => r.queue.drop r.life.loop.conn.inputBuffer.iovecBytes
  | _ => r.queue

def edgeAfter (r : Receiver) (after : Life) : ConnLoop.Label → Bool
  | .epoll_wait _ => r.edge && !r.life.loop.edgeTriggered
  | label => r.edge || (rearmed r.life.loop after.loop && !(r.unread label).isEmpty)

def receive (admits : BitVec 32 → Bool) : Machine Receiver Label where
  start r := (ConnLoop.life admits).start r.life ∧ r.edge = !r.queue.isEmpty
  next r
    | .arrive data => if data = [] then none else some {r with queue := r.queue ++ data,edge := true}
    | .loop label =>
      if r.obeys label then
        (ConnLoop.next admits r.life label).map fun after => ⟨after,r.unread label,r.edgeAfter after label⟩
      else none

-- A readv takes all that is queued.
def Drains (r : Receiver) : Label → Prop
  | .loop (.frame (.read _)) => r.queue.length ≤ r.life.loop.conn.inputBuffer.iovecBytes
  | _ => True

def reports (revents : BitVec 32) : Bool := hasAny revents (EPOLLIN ||| EPOLLPRI ||| EPOLLRDHUP)

-- When no handler runs on an open connection that reads, unread bytes have a
-- read event to come: an edge, or one already reported.
def Unstranded (r : Receiver) : Prop :=
  r.life.loop.conn.state ≠ .kDisconnected → r.life.loop.conn.channel.isReading = true →
    r.life.loop.frames = [] →
    r.queue = [] ∨ r.edge = true ∨ r.life.loop.active.any reports = true

end Receiver

theorem mask_input (c : Channel) : hasAny (EPollPoller.mask c) EPOLLIN = c.wantsInput := by
  unfold EPollPoller.mask
  split
  · rw [Channel.hasAny_union,show hasAny EPOLLET EPOLLIN = false by decide,Bool.or_false]; rfl
  · rfl

theorem Watched.entry_eq (old : Watched fd w) : w.entry =
    if w.conn.channel.events = kNoneEvent then none else some ⟨EPollPoller.mask w.conn.channel,()⟩ := by
  unfold entry
  rw [old.fd_eq]
  split
  · rename_i empty
    exact old.unlisted empty
  · rename_i nonempty
    have mapped := old.mapped () nonempty
    have agrees := old.agrees fd
    simp only [mapped,Option.bind_some] at agrees
    exact agrees.trans (if_neg nonempty)

theorem Kept.asks (old : Kept admits fd w) (op : Open admits w) :
    w.asksForInput = w.conn.channel.isReading := by
  unfold asksForInput
  rw [old.watched.entry_eq]
  split
  · rename_i empty
    rw [Channel.none_not_reading empty]; rfl
  · rw [Option.any_some,mask_input,op.input]

theorem Exchanged.frames (exchanged : Exchanged w after) : after.frames = w.frames ∧ after.active = w.active := by
  cases exchanged <;> exact ⟨rfl,rfl⟩

theorem Exchanged.state (exchanged : Exchanged w after) : after.conn.state = w.conn.state := by
  cases exchanged <;> rfl

-- A call on the connection runs no other frame and consumes no event.
theorem perform_frames (stream : Stream sent w) (call : Call) (taken : w.perform call = some after) :
    after.frames = w.frames ∧ after.active = w.active := by
  cases perform_parts taken with
  | send _ fits sending | sendInLoop fits sending => exact (sendInLoop_exchanged stream.output fits sending).frames
  | refused => exact ⟨rfl,rfl⟩
  | shutdown =>
    unfold ConnLoop.shutdown
    split
    · obtain ⟨issued,same⟩ := shutdownInLoop_exchange (w.setState .kDisconnecting)
      rw [same]
      exact ⟨rfl,rfl⟩
    · exact ⟨rfl,rfl⟩
  | shutdownInLoop =>
    obtain ⟨issued,same⟩ := shutdownInLoop_exchange w
    rw [same]
    exact ⟨rfl,rfl⟩
  | forceClose => unfold ConnLoop.forceClose; split <;> exact ⟨rfl,rfl⟩
  | startRead => unfold ConnLoop.startRead; split <;> exact ⟨rfl,rfl⟩
  | stopRead => unfold ConnLoop.stopRead; split <;> exact ⟨rfl,rfl⟩
  | inputBuffer => exact ⟨rfl,rfl⟩

-- A frame other than a read leaves the reads behind it to run.
theorem runFrame_reads (stream : Stream sent w) (pending : Frame.read ∈ w.frames)
    (other : ∀ result, answer ≠ .read result) (taken : w.runFrame answer = some after) :
    Frame.read ∈ after.frames := by
  unfold ConnLoop.runFrame at taken
  split at taken
  · rename_i rest found
    cases taken
    rw [found] at pending
    simpa [ConnLoop.handleClose,ConnLoop.call,ConnLoop.request,ConnLoop.setState,ConnLoop.pop] using pending
  · rename_i rest found
    cases taken
    rw [found] at pending
    simpa [ConnLoop.pop] using pending
  · exact absurd rfl (other _)
  · rename_i rest result found
    split at taken
    · rename_i fits
      rw [(handleWrite_exchanged (w := w.pop rest) stream.output fits taken).frames.1]
      rw [found] at pending
      simpa [ConnLoop.pop] using pending
    · cases taken
  · rename_i rest found
    cases taken
    rw [found] at pending
    simpa [ConnLoop.pop] using pending
  · rename_i rest found
    cases taken
    rw [found] at pending
    simpa [ConnLoop.pop] using pending
  · rename_i rest found
    cases taken
    rw [found] at pending
    simpa [ConnLoop.remove,ConnLoop.pop] using pending
  · cases taken

theorem runFrame_state (stream : Stream sent w) (closed : w.conn.state = .kDisconnected)
    (taken : w.runFrame answer = some after) : after.conn.state = .kDisconnected := by
  unfold ConnLoop.runFrame at taken
  split at taken
  · cases taken; rfl
  · cases taken; exact closed
  · split at taken
    · unfold ConnLoop.handleRead at taken
      obtain ⟨inputBuffer,_,handled⟩ := Option.bind_eq_some_iff.mp taken
      split at handled
      · cases handled; exact closed
      · cases handled; rfl
      · cases handled; exact closed
    · cases taken
  · rename_i rest result found
    split at taken
    · rename_i fits
      exact (handleWrite_exchanged (w := w.pop rest) stream.output fits taken).state.trans closed
    · cases taken
  · cases taken; exact closed
  · cases taken; exact closed
  · cases taken; exact closed
  · cases taken

theorem perform_state (call : Call) (closed : w.conn.state = .kDisconnected)
    (taken : w.perform call = some after) : after.conn.state = .kDisconnected := by
  cases perform_parts taken with
  | send connected _ _ =>
    rw [closed] at connected
    cases connected
  | refused => exact closed
  | sendInLoop _ sending =>
    unfold ConnLoop.sendInLoop at sending
    rw [if_pos closed] at sending
    cases sending
    exact closed
  | shutdown =>
    rw [ConnLoop.shutdown,if_neg (by rw [closed]; decide)]
    exact closed
  | shutdownInLoop =>
    obtain ⟨issued,same⟩ := shutdownInLoop_exchange w
    rw [same]
    exact closed
  | forceClose =>
    rw [ConnLoop.forceClose,if_neg (by rw [closed]; decide)]
    exact closed
  | startRead => unfold ConnLoop.startRead; split <;> exact closed
  | stopRead => unfold ConnLoop.stopRead; split <;> exact closed
  | inputBuffer => exact closed

-- kDisconnected is final, whatever else a step does.
theorem next_state (stream : Stream s.accepted s.loop) (closed : s.loop.conn.state = .kDisconnected)
    (taken : ConnLoop.next admits s label = some reached) : reached.loop.conn.state = .kDisconnected := by
  cases next_step taken with
  | user use _ performed => exact perform_state _ closed performed
  | epoll_wait => exact closed
  | handleEvent => exact closed
  | frame ran => exact runFrame_state stream closed ran
  | removeConnectionInLoop => exact closed
  | functor =>
    rename_i cb rest _ _ _
    cases cb with
    | writeCompleteCallback => exact closed
    | highWaterMarkCallback len => exact closed
    | forceCloseInLoop =>
      simp only [ConnLoop.runFunctor,ConnLoop.forceCloseInLoop]
      split
      · rfl
      · exact closed
    | connectDestroyed =>
      simp only [ConnLoop.runFunctor,ConnLoop.connectDestroyed]
      split
      · rfl
      · exact closed

theorem rearmed_reading (idle : w.asksForInput = false) (asks : after.asksForInput = true) :
    rearmed w after = true := by
  unfold rearmed
  rw [asks,Bool.true_and,bne_iff_ne]
  intro same
  unfold asksForInput at idle asks
  rw [same,idle] at asks
  cases asks

theorem reports_read (reported : Receiver.reports revents = true) : Frame.read ∈ callbacks revents := by
  unfold Receiver.reports at reported
  simp [callbacks,reported]

theorem reports_input (reported : hasAny revents EPOLLIN = true) : Receiver.reports revents = true := by
  unfold Receiver.reports
  rw [Channel.hasAny_or,Channel.hasAny_or,reported]
  rfl

namespace Receiver
variable {r moved : Receiver}

-- Unread bytes have a read to come: the readFd of a running event included.
def Pending (r : Receiver) : Prop :=
  r.queue = [] ∨ r.edge = true ∨ r.life.loop.active.any reports = true ∨ Frame.read ∈ r.life.loop.frames

theorem Pending.keep (pending : Pending r) (queue : moved.queue = r.queue) (edge : r.edge = true → moved.edge = true)
    (active : moved.life.loop.active = r.life.loop.active)
    (frames : Frame.read ∈ r.life.loop.frames → Frame.read ∈ moved.life.loop.frames) : Pending moved := by
  unfold Pending
  rw [queue,active]
  exact pending.imp_right (Or.imp edge (Or.imp_right frames))

-- Between events an edge is all that is left.
theorem Pending.idle (pending : Pending r) (ended : r.life.loop.frames = []) (idle : r.life.loop.active = none) :
    r.queue = [] ∨ r.edge = true := by
  rcases pending with empty | edge | reported | running
  · exact .inl empty
  · exact .inr edge
  · rw [idle] at reported; cases reported
  · rw [ended] at running; cases running

theorem edgeAfter_keeps (label : ConnLoop.Label) (other : ∀ revents, label ≠ .epoll_wait revents)
    (edge : r.edge = true) : r.edgeAfter reached label = true := by
  cases label with
  | epoll_wait revents => exact absurd rfl (other revents)
  | _ => simp [edgeAfter,edge]

-- Reading that starts with this step finds what is queued.
theorem pending_started (idle : r.life.loop.asksForInput = false) (asks : reached.loop.asksForInput = true)
    (label : ConnLoop.Label) (other : ∀ revents, label ≠ .epoll_wait revents) :
    Pending ⟨reached,r.unread label,r.edgeAfter reached label⟩ := by
  have armed := rearmed_reading idle asks
  cases left : (r.unread label).isEmpty with
  | true => exact .inl (List.isEmpty_iff.mp left)
  | false =>
    refine .inr (.inl ?_)
    cases label with
    | epoll_wait revents => exact absurd rfl (other revents)
    | _ => simp [edgeAfter,armed,left]

theorem pending_kept (pending : Pending r) (stream : Stream r.life.accepted r.life.loop)
    (asks : r.life.loop.asksForInput = true) (idle : r.life.loop.frames ≠ [] → r.life.loop.active = none)
    (met : r.Drains (.loop label)) (obeyed : r.obeys label = true)
    (taken : ConnLoop.next admits r.life label = some reached) :
    Pending ⟨reached,r.unread label,r.edgeAfter reached label⟩ := by
  cases next_step taken with
  | user use _ performed =>
    obtain ⟨frames,active⟩ := perform_frames stream use performed
    refine pending.keep rfl (edgeAfter_keeps (.user use) fun _ same => (by cases same)) active fun running => ?_
    rwa [frames]
  | epoll_wait ended idle =>
    rcases pending.idle ended idle with empty | edge
    · exact .inl empty
    · cases left : r.queue.isEmpty with
      | true => exact .inl (List.isEmpty_iff.mp left)
      | false =>
        simp only [obeys,edge,left,asks,Bool.not_false,Bool.and_self,Bool.not_true,Bool.false_or] at obeyed
        exact .inr (.inr (.inl (reports_input obeyed)))
  | handleEvent ended reported =>
    rcases pending with empty | edge | found | running
    · exact .inl empty
    · exact .inr (.inl (edgeAfter_keeps .handleEvent (fun _ same => (by cases same)) edge))
    · rw [reported] at found
      exact .inr (.inr (.inr (reports_read found)))
    · rw [ended] at running; cases running
  | frame ran =>
    rename_i answer loop
    have running : r.life.loop.frames ≠ [] := by
      intro ended
      simp [ConnLoop.runFrame,ended] at ran
    by_cases reads : ∃ result, answer = .read result
    · obtain ⟨result,rfl⟩ := reads
      exact .inl (List.drop_eq_nil_of_le met)
    · have other : ∀ result, answer ≠ .read result := fun result same => reads ⟨result,same⟩
      have kept : r.unread (.frame answer) = r.queue := by
        cases answer with
        | read result => exact absurd rfl (other result)
        | _ => rfl
      rcases pending with empty | edge | reported | later
      · exact .inl (kept.trans empty)
      · exact .inr (.inl (edgeAfter_keeps (.frame answer) (fun _ same => (by cases same)) edge))
      · rw [idle running] at reported; cases reported
      · exact .inr (.inr (.inr (runFrame_reads stream later other ran)))
  | removeConnectionInLoop =>
    exact pending.keep rfl (edgeAfter_keeps .removeConnectionInLoop fun _ same => (by cases same)) rfl fun running => running
  | functor ended idle =>
    rcases pending.idle ended idle with empty | edge
    · exact .inl empty
    · exact .inr (.inl (edgeAfter_keeps .functor (fun _ same => (by cases same)) edge))

structure Receives (admits : BitVec 32 → Bool) (fd : Nat) (r : Receiver) : Prop where
  stream : Stream r.life.accepted r.life.loop
  phase : r.life.loop.conn.state = .kDisconnected ∨
    Kept admits fd r.life.loop ∧ (r.life.loop.conn.channel.isReading = true → Pending r)

theorem quiet_live (live : w.conn.state ≠ .kDisconnected) (use : Call) : w.Quiet (.user use) := by
  cases use with
  | startRead => exact live
  | stopRead => exact fun closed => absurd closed live
  | _ => exact fun enters => enters.elim

theorem Receives.step (old : Receives admits fd r) (met : r.Drains label)
    (taken : (receive admits).next r label = some moved) : Receives admits fd moved := by
  cases label with
  | arrive data =>
    simp only [receive] at taken
    split at taken
    · cases taken
    · cases taken
      exact ⟨old.stream,old.phase.imp_right fun kept => ⟨kept.1,fun _ => .inr (.inl rfl)⟩⟩
  | loop label =>
    simp only [receive] at taken
    split at taken
    · rename_i obeyed
      obtain ⟨reached,stepped,same⟩ := Option.map_eq_some_iff.mp taken
      rw [← same]
      refine ⟨next_stream old.stream stepped,?_⟩
      by_cases closed : reached.loop.conn.state = .kDisconnected
      · exact .inl closed
      -- The connection is open before and after the step.
      have live : r.life.loop.conn.state ≠ .kDisconnected :=
        fun before => closed (next_state old.stream before stepped)
      obtain ⟨before,pending⟩ := old.phase.resolve_left live
      have kept := before.next old.stream (fun use _ => quiet_live live use) (fun _ => .inr closed) stepped
      have opened := before.phase.resolve_right fun cl => live cl.state
      have still := kept.phase.resolve_right fun cl => closed cl.state
      refine .inr ⟨kept,fun reading => ?_⟩
      have asks := (kept.asks still).trans reading
      cases reads : r.life.loop.conn.channel.isReading with
      | true =>
        exact pending_kept (pending reads) old.stream ((before.asks opened).trans reads) before.idle met obeyed stepped
      | false =>
        refine pending_started ((before.asks opened).trans reads) asks label fun revents same => ?_
        subst same
        cases next_step stepped with
        | epoll_wait => rw [reads] at reading; cases reading
    · cases taken

theorem receive_start (origin : (receive admits).start r) : ∃ fd, Receives admits fd r := by
  obtain ⟨⟨fd,highWaterMark,complete,high,same⟩,edge⟩ := origin
  refine ⟨fd,same ▸ established_stream fd highWaterMark complete high,.inr ⟨?_,fun _ => ?_⟩⟩
  · exact same ▸ established_kept admits fd highWaterMark complete high
  · cases left : r.queue with
    | nil => exact .inl left
    | cons byte rest => rw [left] at edge; exact .inr (.inl edge)

-- As long as each readv has room for all that is queued, received bytes are
-- never left without a read event to come.
theorem drained_never_stranded (path : (receive admits).ReachedUnder Drains r) : Unstranded r := by
  have kept : (receive admits).Preserves Drains fun r => ∃ fd, Receives admits fd r := by
    refine ⟨fun s origin => receive_start origin,?_⟩
    intro s label after given met taken
    obtain ⟨fd,old⟩ := given
    exact ⟨fd,old.step met taken⟩
  obtain ⟨fd,old⟩ := kept.reached path
  intro live reading ended
  obtain ⟨_,pending⟩ := old.phase.resolve_left live
  rcases pending reading with empty | edge | reported | running
  · exact .inl empty
  · exact .inr (.inl edge)
  · exact .inr (.inr reported)
  · rw [ended] at running; cases running

theorem fresh_iovecBytes : (Buffer.new kInitialSize).iovecBytes = 66560 := by
  simp [Buffer.iovecBytes,Buffer.writableBytes,Buffer.new,kInitialSize,Buffer.extrabufSize]

-- A new connection at the read callback of its first event.
def firstRead (byte : UInt8) (rest : List UInt8) : Receiver :=
  ⟨{established 7 100 false false with
    loop := {(established 7 100 false false).loop with frames := [.read]}},byte :: rest,false⟩

theorem first_event (byte : UInt8) (rest : List UInt8) :
    (receive fun _ => true).run ⟨established 7 100 false false,[],false⟩
      [.loop (.frame .none),.arrive (byte :: rest),.loop (.epoll_wait EPOLLIN),.loop .handleEvent] =
    some (firstRead byte rest) := rfl

theorem small_arrival_drained : ∃ r, (receive fun _ => true).run (firstRead 1 [2])
    [.loop (.frame (.read (.bytes [1,2]))),.loop (.frame .none)] = some r ∧ Unstranded r := by
  have found : ((receive fun _ => true).run (firstRead 1 [2])
    [.loop (.frame (.read (.bytes [1,2]))),.loop (.frame .none)]).isSome = true := by decide +kernel
  obtain ⟨r,ran⟩ := Option.isSome_iff_exists.mp found
  have origin : (receive fun _ => true).ReachedUnder Drains ⟨established 7 100 false false,[],false⟩ :=
    .start ⟨⟨_,_,_,_,rfl⟩,rfl⟩
  have early : (receive fun _ => true).Meets Drains ⟨established 7 100 false false,[],false⟩
      [.loop (.frame .none),.arrive [1,2],.loop (.epoll_wait EPOLLIN),.loop .handleEvent] :=
    ⟨trivial,fun _ _ => ⟨trivial,fun _ _ => ⟨trivial,fun _ _ => ⟨trivial,fun _ _ => trivial⟩⟩⟩⟩
  have room : Drains (firstRead 1 [2]) (.loop (.frame (.read (.bytes [1,2])))) :=
    Nat.le_trans (show 2 ≤ 66560 by decide) (Nat.le_of_eq fresh_iovecBytes.symm)
  have late : (receive fun _ => true).Meets Drains (firstRead 1 [2])
      [.loop (.frame (.read (.bytes [1,2]))),.loop (.frame .none)] :=
    ⟨room,fun _ _ => ⟨trivial,fun _ _ => trivial⟩⟩
  exact ⟨r,ran,drained_never_stranded ((origin.along early (first_event 1 [2])).along late ran)⟩

-- A readv that is too short strands the rest when its callback does nothing.
theorem short_read_strands (valid : r.life.loop.conn.inputBuffer.Valid) (running : r.life.loop.frames = [.read])
    (live : r.life.loop.conn.state ≠ .kDisconnected) (reading : r.life.loop.conn.channel.isReading = true)
    (idle : r.life.loop.active = none) (edge : r.edge = false)
    (short : r.life.loop.conn.inputBuffer.iovecBytes < r.queue.length)
    (room : 0 < r.life.loop.conn.inputBuffer.iovecBytes) :
    ∃ moved, (receive admits).run r [.loop (.frame (.read (.bytes (r.queue.take r.life.loop.conn.inputBuffer.iovecBytes)))),
      .loop (.frame .none)] = some moved ∧
      moved.queue = r.queue.drop r.life.loop.conn.inputBuffer.iovecBytes ∧ ¬Unstranded moved := by
  obtain ⟨first,rest,taken⟩ : ∃ first rest, r.queue.take r.life.loop.conn.inputBuffer.iovecBytes = first :: rest := by
    cases found : r.queue.take r.life.loop.conn.inputBuffer.iovecBytes with
    | nil =>
      have none := congrArg List.length found
      rw [List.length_take,List.length_nil] at none
      omega
    | cons first rest => exact ⟨first,rest,rfl⟩
  have nonempty : r.queue ≠ [] := by intro empty; rw [empty] at short; cases short
  have fits : (Buffer.ReadResult.bytes (first :: rest)).Fits r.life.loop.conn.inputBuffer := by
    change (first :: rest).length ≤ _
    rw [← taken,List.length_take]
    omega
  obtain ⟨inputBuffer,read,_⟩ := Buffer.readFd_yields valid _ fits
  have ran : r.life.loop.runFrame (.read (.bytes (first :: rest))) =
      some {r.life.loop with frames := [.userCode],conn := {r.life.loop.conn with inputBuffer := inputBuffer}} := by
    simp only [ConnLoop.runFrame,running,fits,if_true,ConnLoop.handleRead]
    rw [show (r.life.loop.pop []).conn.inputBuffer = r.life.loop.conn.inputBuffer from rfl,read]
    rfl
  have obeyed : r.obeys (.frame (.read (.bytes (first :: rest)))) = true := by
    simp [obeys,nonempty,taken]
  have readStep : (receive admits).next r (.loop (.frame (.read (.bytes (first :: rest))))) =
      some ⟨{r.life with loop := {r.life.loop with
        frames := [.userCode]
        conn := {r.life.loop.conn with inputBuffer := inputBuffer}}},
        r.queue.drop r.life.loop.conn.inputBuffer.iovecBytes,false⟩ := by
    simp [receive,obeyed,ConnLoop.next,ran,edgeAfter,edge,unread,rearmed,entry]
  have returnStep : (receive admits).next ⟨{r.life with loop := {r.life.loop with
        frames := [.userCode]
        conn := {r.life.loop.conn with inputBuffer := inputBuffer}}},
        r.queue.drop r.life.loop.conn.inputBuffer.iovecBytes,false⟩ (.loop (.frame .none)) =
      some ⟨{r.life with loop := {r.life.loop with
        frames := []
        conn := {r.life.loop.conn with inputBuffer := inputBuffer}}},
        r.queue.drop r.life.loop.conn.inputBuffer.iovecBytes,false⟩ := by
    simp [receive,obeys,ConnLoop.next,ConnLoop.runFrame,ConnLoop.pop,edgeAfter,unread,rearmed,entry]
  rw [taken,Machine.run_cons readStep,Machine.run_cons returnStep]
  refine ⟨_,rfl,rfl,fun claimed => ?_⟩
  rcases claimed live reading rfl with empty | raised | reported
  · have none := congrArg List.length empty
    rw [List.length_drop,List.length_nil] at none
    omega
  · cases raised
  · dsimp only at reported
    rw [idle] at reported
    cases reported

-- 66561 bytes in one arrival on a new connection, whose readv takes 66560.
theorem large_arrival_strands : ∃ moved,
    (receive fun _ => true).run ⟨established 7 100 false false,[],false⟩
      ([.loop (.frame .none),.arrive (List.replicate 66561 0),.loop (.epoll_wait EPOLLIN),.loop .handleEvent] ++
        [.loop (.frame (.read (.bytes (List.replicate 66560 0)))),.loop (.frame .none)]) = some moved ∧
    moved.queue = [0] ∧ ¬Unstranded moved := by
  have event := first_event 0 (List.replicate 66560 0)
  have arrived : (0 : UInt8) :: List.replicate 66560 0 = List.replicate 66561 0 := List.replicate_succ.symm
  have room : (established 7 100 false false).loop.conn.inputBuffer.iovecBytes = 66560 := fresh_iovecBytes
  have short : 66560 < ((0 : UInt8) :: List.replicate 66560 0).length := by
    rw [List.length_cons,List.length_replicate]; omega
  have first : (List.replicate 66561 (0 : UInt8)).take 66560 = List.replicate 66560 0 := by rw [List.take_replicate]; rfl
  have last : (List.replicate 66561 (0 : UInt8)).drop 66560 = [0] := by rw [List.drop_replicate]; rfl
  obtain ⟨moved,ran,queue,stranded⟩ := short_read_strands
    (r := firstRead 0 (List.replicate 66560 0))
    (Buffer.new_valid kInitialSize) rfl (by decide) (by decide) rfl rfl (lt_of_eq_of_lt room short)
    (Nat.lt_of_lt_of_eq (by decide) room.symm)
  dsimp only [firstRead] at ran queue
  rw [room,arrived] at ran queue
  rw [first] at ran
  refine ⟨moved,?_,queue.trans last,stranded⟩
  rw [← arrived,Machine.run_append event,firstRead,arrived]
  exact ran

end Receiver
end NewMuduo.ConnLoop
