import NewMuduo.CoroConnectionRuns

namespace NewMuduo

-- examples/coro_echo_server.cpp on one connection of its CoroTcpServer.
-- received records what each read gave.
structure CoroEchoServer where
  conn : CoroConn
  received : List (List UInt8)

namespace CoroEchoServer
open CoroConn

def setInput (w : CoroConn) (inputBuffer : Buffer) : CoroConn := {w with conn := {w.conn with inputBuffer := inputBuffer}}

-- The data callback of main.
def dataCallback (w : CoroConn) : Option CoroConn := do
  let w ← w.next (.send (w.conn.inputBuffer.peek w.conn.inputBuffer.readableBytes))
  some (setInput w w.conn.inputBuffer.retrieveAll)

-- What the loop does by itself.
def loopOwn : CoroConn.Label → Bool
  | .event _ | .handled => true
  | .frame answer => match answer with
    | .read result => result.data.isEmpty
    | _ => true
  | _ => false

inductive Label where
  | data (byte : UInt8) (more : List UInt8)
  | loop (label : CoroConn.Label)
  deriving DecidableEq, Repr

-- onReadable calls dataCallback_ when it has got bytes, and then goes on.
def next (s : CoroEchoServer) : Label → Option CoroEchoServer
  | .data byte more => do
    let w ← s.conn.next (.frame (.read (.bytes (byte :: more))))
    let w ← dataCallback w
    let w ← w.next (.frame .none)
    some ⟨w,s.received ++ [byte :: more]⟩
  | .loop label => if loopOwn label then (s.conn.next label).map fun w => {s with conn := w} else none

-- start() runs the connection handler, whose frame keeps the parameter and is
-- never resumed; connectionLoop waits for it and belongs to the connection.
-- Then onAccept returns.
def accepted (fd : Nat) : Option CoroConn := CoroConn.machine.run (started fd true) [.copy,.drop]

def machine : Machine CoroEchoServer Label where
  start s := ∃ fd, accepted fd = some s.conn ∧ s.received = []
  next := next

-- EPOLLOUT is asked for as long as there is something to write.
structure Open (w : CoroConn) : Prop where
  connected : w.conn.connected = true
  closes : w.closes = 0
  mapped : w.mapped = true
  attached : w.conn.channel.attached = true
  channel : ∃ c, w.conn.channel.channel = some c ∧ c.isWriting = w.conn.writing
  backlog : w.conn.writing = true ↔ w.conn.outputBuffer.readable ≠ []

-- No event comes any more, but the handler's frame still has its pointer.
structure Closed (w : CoroConn) : Prop where
  connected : w.conn.connected = false
  closes : w.closes = 1
  mapped : w.mapped = false
  frames : w.frames = []
  eventHandling : w.eventHandling = false
  channel : w.conn.channel.channel = none

-- What holds of a connection whatever it does.
structure Held (w : CoroConn) : Prop where
  outgoing : Outgoing w
  input : w.conn.inputBuffer.Valid
  dataCallback : w.conn.dataCallback = true
  copies : w.copies = 1
  alive : w.destroyed = false
  handling : w.frames ≠ [] → w.eventHandling = true

structure Serves (s : CoroEchoServer) : Prop where
  held : Held s.conn
  code : .userCode ∉ s.conn.frames
  drained : s.conn.conn.inputBuffer.readable = []
  sent : s.conn.sent = s.received
  course : Open s.conn ∨ Closed s.conn

section
variable {w after : CoroConn} {label : CoroConn.Label}

theorem owned_of_copies (copies : w.copies = 1) : w.owned = true := by simp [owned,copies]

theorem release_of_copies (copies : w.copies = 1) : w.release = w := by rw [release,owned_of_copies copies]; rfl

-- The Channel dies in its own event, and nothing is left of it.
theorem handleClose_eq (live : Open w) (handling : w.eventHandling = true) (copies : w.copies = 1) : w.handleClose =
    {w with
      conn := {w.conn with connected := false,channel := w.conn.channel.disableAll.remove}
      frames := []
      eventHandling := false
      torn := true
      closes := 1
      mapped := false} := by
  obtain ⟨c,found,_⟩ := live.channel
  have some_channel : (w.conn.channel.disableAll).channel.isSome = true := by
    simp [CoroChannel.disableAll,CoroChannel.request,found]
  rw [handleClose,if_pos live.connected]
  simp only [removeChannel,closeCallback,some_channel,handling,Bool.and_true,Bool.or_true,if_true,Bool.not_true,Bool.and_false,
    live.closes]
  exact release_of_copies copies

theorem remove_channel (c : CoroChannel) : c.remove.channel = none := by
  unfold CoroChannel.remove
  dsimp only
  split
  · rfl
  · rename_i absent
    simpa using absent

theorem Held.close (old : Held w) (live : Open w) (handling : w.eventHandling = true) : Held w.handleClose ∧ Closed w.handleClose ∧
    w.handleClose.conn.inputBuffer = w.conn.inputBuffer ∧ w.handleClose.sent = w.sent := by
  rw [handleClose_eq live handling old.copies]
  exact ⟨⟨⟨old.outgoing.output,old.outgoing.bytes⟩,old.input,old.dataCallback,old.copies,old.alive,fun some => absurd rfl some⟩,
    ⟨rfl,rfl,rfl,rfl,rfl,remove_channel _⟩,rfl,rfl⟩

theorem Held.pop {frame : Frame} {rest : List Frame} (old : Held w) (top : w.frames = frame :: rest) : Held (w.pop rest) :=
  ⟨⟨old.outgoing.output,old.outgoing.bytes⟩,old.input,old.dataCallback,old.copies,old.alive,
    fun _ => old.handling (by rw [top]; exact List.cons_ne_nil _ _)⟩

theorem Open.pop (live : Open w) (rest : List Frame) : Open (w.pop rest) :=
  ⟨live.connected,live.closes,live.mapped,live.attached,live.channel,live.backlog⟩

theorem Open.disableWriting (live : Open w) (empty : w.conn.outputBuffer.readable = []) : Open w.disableWriting := by
  obtain ⟨c,found,_⟩ := live.channel
  refine ⟨live.connected,live.closes,live.mapped,live.attached,⟨c.request .disableWriting,?_,?_⟩,?_⟩
  · simp [CoroConn.disableWriting,CoroChannel.disableWriting,CoroChannel.request,found]
  · exact Channel.disableWriting_writing
  · simp [CoroConn.disableWriting,empty]

theorem empty_iff {b : Buffer} (valid : b.Valid) : b.readableBytes = 0 ↔ b.readable = [] := by
  rw [← Buffer.readable_length valid,List.length_eq_zero_iff]

theorem callbacks_code (revents : BitVec 32) : .userCode ∉ ConnLoop.callbacks revents := by
  simp only [ConnLoop.callbacks,List.mem_append,not_or]
  refine ⟨⟨⟨?_,?_⟩,?_⟩,?_⟩
  all_goals split <;> simp

theorem Closed.no_frame (closed : Closed w) (answer : ConnLoop.Answer) : w.next (.frame answer) = none := by
  have none : w.runFrame answer = none := by simp [runFrame,closed.frames]
  simp [CoroConn.next,perform,none]

theorem Closed.stuck (closed : Closed w) (own : loopOwn label = true) : w.next label = none := by
  cases label with
  | event revents => simp [CoroConn.next,perform,CoroChannel.polled,closed.channel]
  | frame answer => exact closed.no_frame answer
  | handled => simp [CoroConn.next,perform,closed.eventHandling]
  | send | shutdown | connectionLoop | copy | drop => cases own

-- One step of the loop by itself: nothing is received and nothing sent.
theorem Held.loop (old : Held w) (live : Open w) (code : .userCode ∉ w.frames) (own : loopOwn label = true)
    (taken : Step w label after) :
    Held after ∧ (Open after ∨ Closed after) ∧ .userCode ∉ after.frames ∧ after.conn.inputBuffer = w.conn.inputBuffer ∧ after.sent = w.sent := by
  have flows : Outgoing after := old.outgoing.step taken
  have below : ∀ {frame : Frame} {rest : List Frame}, w.frames = frame :: rest → .userCode ∉ rest :=
    fun top absent => code (top ▸ List.mem_cons_of_mem _ absent)
  cases taken with
  | event _ _ =>
    exact ⟨⟨flows,old.input,old.dataCallback,old.copies,old.alive,fun _ => rfl⟩,
      .inl ⟨live.connected,live.closes,live.mapped,live.attached,live.channel,live.backlog⟩,callbacks_code _,rfl,rfl⟩
  | hup top =>
    obtain ⟨held,closed,input,sent⟩ := (old.pop top).close (live.pop _) (old.handling (by simp [top]))
    exact ⟨held,.inr closed,by simp [closed.frames],input,sent⟩
  | error top => exact ⟨old.pop top,.inl (live.pop _),below top,rfl,rfl⟩
  | @eof rest top =>
    have popped := old.pop top
    have ended : Held {w.pop rest with eof := true} :=
      ⟨⟨popped.outgoing.output,popped.outgoing.bytes⟩,popped.input,popped.dataCallback,popped.copies,popped.alive,popped.handling⟩
    have open_ : Open {w.pop rest with eof := true} :=
      ⟨live.connected,live.closes,live.mapped,live.attached,live.channel,live.backlog⟩
    obtain ⟨held,closed,input,sent⟩ := ended.close open_ (old.handling (by simp [top]))
    exact ⟨held,.inr closed,by simp [closed.frames],input,sent⟩
  | readError top => exact ⟨old.pop top,.inl (live.pop _),below top,rfl,rfl⟩
  | idle top empty =>
    have popped := old.pop top
    exact ⟨⟨flows,popped.input,popped.dataCallback,popped.copies,popped.alive,popped.handling⟩,
      .inl ((live.pop _).disableWriting ((empty_iff old.outgoing.output).mp empty)),below top,rfl,rfl⟩
  | wrote top some fits _ left =>
    have popped := old.pop top
    have backlog : w.conn.outputBuffer.readable ≠ [] := fun empty => by
      have none := (empty_iff old.outgoing.output).mpr empty
      omega
    exact ⟨⟨flows,popped.input,popped.dataCallback,popped.copies,popped.alive,popped.handling⟩,
      .inl ⟨live.connected,live.closes,live.mapped,live.attached,live.channel,
        iff_of_true (live.backlog.mpr backlog) fun empty => left ((empty_iff flows.output).mpr empty)⟩,below top,rfl,rfl⟩
  | drained top _ _ _ left =>
    have popped := old.pop top
    obtain ⟨c,found,_⟩ := live.channel
    refine ⟨⟨flows,popped.input,popped.dataCallback,popped.copies,popped.alive,popped.handling⟩,
      .inl ⟨live.connected,live.closes,live.mapped,live.attached,⟨c.request .disableWriting,?_,Channel.disableWriting_writing⟩,?_⟩,
      below top,rfl,rfl⟩
    · simp [CoroConn.disableWriting,CoroChannel.disableWriting,CoroChannel.request,found,CoroConn.pop]
    · exact iff_of_false Bool.false_ne_true fun more => more ((empty_iff flows.output).mp left)
  | blocked top _ => exact ⟨old.pop top,.inl (live.pop _),below top,rfl,rfl⟩
  | writeError top _ _ =>
    obtain ⟨held,closed,input,sent⟩ := (old.pop top).close (live.pop _) (old.handling (by simp [top]))
    exact ⟨held,.inr closed,by simp [closed.frames],input,sent⟩
  | returned top => exact absurd (top ▸ List.mem_cons_self) code
  | handled handling none =>
    exact ⟨⟨flows,old.input,old.dataCallback,old.copies,old.alive,fun some => absurd none some⟩,
      .inl ⟨live.connected,live.closes,live.mapped,live.attached,live.channel,live.backlog⟩,code,rfl,rfl⟩
  | data _ filled _ _ => exact absurd (List.isEmpty_iff.mp own) filled
  | unread _ filled _ _ => exact absurd (List.isEmpty_iff.mp own) filled
  | refused | sent | shutdown | connectionLoop | copy | drop => cases own

theorem frame_next (alive : w.destroyed = false) (answer : ConnLoop.Answer) : w.next (.frame answer) = w.runFrame answer :=
  if_pos ⟨alive,fun absent => (by cases absent)⟩

theorem send_next (alive : w.destroyed = false) (runs : w.userRuns = true) (data : List UInt8) : w.next (.send data) = w.send data :=
  if_pos ⟨alive,fun _ => runs⟩

theorem Held.send {data : List UInt8} (old : Held w) (live : Open w) (filled : data ≠ []) : ∃ after, w.send data = some after ∧
    Held after ∧ Open after ∧ after.frames = w.frames ∧ after.conn.inputBuffer = w.conn.inputBuffer ∧
    after.sent = w.sent ++ [data] := by
  obtain ⟨outputBuffer,appended,valid,contents⟩ := Buffer.append_yields old.outgoing.output data
  obtain ⟨_,bytes⟩ := old.outgoing.append appended
  obtain ⟨c,found,writing⟩ := live.channel
  have more : outputBuffer.readable ≠ [] := by simp [contents,filled]
  cases writes : w.conn.writing with
  | true =>
    refine ⟨{w with conn := {w.conn with outputBuffer := outputBuffer},sent := w.sent ++ [data]},?_,
      ⟨⟨valid,bytes⟩,old.input,old.dataCallback,old.copies,old.alive,old.handling⟩,
      ⟨live.connected,live.closes,live.mapped,live.attached,⟨c,found,writing⟩,iff_of_true writes more⟩,rfl,rfl,rfl⟩
    simp [CoroConn.send,live.connected,appended,writes]
  | false =>
    refine ⟨{w with
        conn := {w.conn with outputBuffer := outputBuffer,writing := true,channel := w.conn.channel.enableWriting}
        sent := w.sent ++ [data]},?_,
      ⟨⟨valid,bytes⟩,old.input,old.dataCallback,old.copies,old.alive,old.handling⟩,
      ⟨live.connected,live.closes,live.mapped,?_,⟨c.request .enableWriting,?_,Channel.enableWriting_writing⟩,
        iff_of_true rfl more⟩,rfl,rfl,rfl⟩
    · simp [CoroConn.send,live.connected,appended,writes]
    · simp [CoroChannel.enableWriting,CoroChannel.attach,CoroChannel.request,live.attached]
    · simp [CoroChannel.enableWriting,CoroChannel.attach,CoroChannel.request,live.attached,found]

theorem Held.setInput {inputBuffer : Buffer} (old : Held w) (valid : inputBuffer.Valid) : Held (setInput w inputBuffer) :=
  ⟨⟨old.outgoing.output,old.outgoing.bytes⟩,valid,old.dataCallback,old.copies,old.alive,old.handling⟩

theorem Open.setInput (live : Open w) (inputBuffer : Buffer) : Open (setInput w inputBuffer) :=
  ⟨live.connected,live.closes,live.mapped,live.attached,live.channel,live.backlog⟩

theorem Open.call (live : Open w) (frame : Frame) : Open (w.call frame) :=
  ⟨live.connected,live.closes,live.mapped,live.attached,live.channel,live.backlog⟩

theorem data_read {byte : UInt8} {more : List UInt8} {rest : List Frame} {inputBuffer : Buffer} (old : Held w)
    (top : w.frames = .read :: rest) (short : (byte :: more).length ≤ bufBytes)
    (appended : w.conn.inputBuffer.append (byte :: more) = some inputBuffer) :
    w.next (.frame (.read (.bytes (byte :: more)))) = some ((setInput (w.pop rest) inputBuffer).call .userCode) := by
  have ran : w.runFrame (.read (.bytes (byte :: more))) = some ((setInput (w.pop rest) inputBuffer).call .userCode) := by
    simp only [runFrame,top,if_pos short,onReadable,CoroConn.pop,appended,Option.bind_eq_bind,Option.bind_some]
    exact congrArg some (if_pos old.dataCallback)
  exact (frame_next old.alive _).trans ran

theorem callback_returns {rest : List Frame} (old : Held w) (top : w.frames = .userCode :: rest) :
    w.next (.frame .none) = some (w.pop rest) := by
  refine (frame_next old.alive _).trans ?_
  simp only [runFrame,top]
  exact congrArg some (release_of_copies old.copies)

-- A chunk goes from the kernel through the input buffer into the output buffer.
theorem Held.data {byte : UInt8} {more : List UInt8} {rest : List Frame} (old : Held w) (live : Open w)
    (drained : w.conn.inputBuffer.readable = []) (top : w.frames = .read :: rest) (short : (byte :: more).length ≤ bufBytes)
    (received : List (List UInt8)) :
    ∃ after, next ⟨w,received⟩ (.data byte more) = some ⟨after,received ++ [byte :: more]⟩ ∧ Held after ∧ Open after ∧
      after.frames = rest ∧ after.conn.inputBuffer.readable = [] ∧ after.sent = w.sent ++ [byte :: more] := by
  obtain ⟨inputBuffer,appended,valid,contents⟩ := Buffer.append_yields old.input (byte :: more)
  rw [drained,List.nil_append] at contents
  have read := data_read old top short appended
  have popped := (old.pop top).setInput valid
  have held : Held ((CoroEchoServer.setInput (w.pop rest) inputBuffer).call .userCode) :=
    ⟨⟨popped.outgoing.output,popped.outgoing.bytes⟩,popped.input,popped.dataCallback,popped.copies,popped.alive,
      fun _ => old.handling (by simp [top])⟩
  have peeked : inputBuffer.peek inputBuffer.readableBytes = byte :: more := by
    rw [Buffer.peek_readable valid (Nat.le_refl _),← Buffer.readable_length valid,List.take_length,contents]
  obtain ⟨sent,sending,kept,still,frames,input,grown⟩ :=
    held.send (((live.pop rest).setInput inputBuffer).call .userCode) (List.cons_ne_nil byte more)
  have calling := (send_next held.alive (by simp [CoroConn.call,userRuns]) (byte :: more)).trans sending
  rw [← peeked] at calling
  obtain ⟨emptied,same,emptied_valid,none⟩ := Buffer.retrieveAll_yields kept.input
  cases Option.some.inj same
  have back := kept.setInput emptied_valid
  have told : CoroEchoServer.dataCallback ((CoroEchoServer.setInput (w.pop rest) inputBuffer).call .userCode) =
      some (CoroEchoServer.setInput sent sent.conn.inputBuffer.retrieveAll) :=
    congrArg (Option.bind · fun w => some (CoroEchoServer.setInput w w.conn.inputBuffer.retrieveAll)) calling
  have returns := callback_returns back frames
  refine ⟨_,?_,back.pop frames,(still.setInput _).pop rest,rfl,none,grown⟩
  simp only [next,read,Option.bind_eq_bind,Option.bind_some,told,returns]

theorem data_frame {data : List UInt8} (reading : w.next (.frame (.read (.bytes data))) = some after) :
    ∃ rest, w.frames = .read :: rest ∧ data.length ≤ bufBytes := by
  have ran : w.runFrame (.read (.bytes data)) = some after := by
    unfold CoroConn.next at reading
    split at reading
    · exact reading
    · cases reading
  cases top : w.frames with
  | nil => simp [runFrame,top] at ran
  | cons frame rest =>
    cases frame <;> simp only [runFrame,top,reduceCtorEq] at ran
    split at ran
    · rename_i short
      exact ⟨rest,rfl,short⟩
    · cases ran

theorem accepted_parts {fd : Nat} (made : accepted fd = some w) : w = started fd true := by
  cases made
  rfl

end

variable {s after : CoroEchoServer} {label : Label}

theorem Serves.next (old : Serves s) (taken : next s label = some after) : Serves after := by
  rcases old.course with live | closed
  · cases label with
    | data byte more =>
      obtain ⟨_,reading,_⟩ := Option.bind_eq_some_iff.mp taken
      obtain ⟨rest,top,short⟩ := data_frame reading
      obtain ⟨w,found,held,still,frames,drained,sent⟩ := old.held.data live old.drained top short s.received
      cases Option.some.inj (found.symm.trans taken)
      refine ⟨held,?_,drained,sent.trans (by rw [old.sent]),.inl still⟩
      rw [frames]
      exact fun absent => old.code (top ▸ List.mem_cons_of_mem _ absent)
    | loop label =>
      simp only [CoroEchoServer.next] at taken
      split at taken
      · rename_i own
        obtain ⟨w,stepped,same⟩ := Option.map_eq_some_iff.mp taken
        rw [← same]
        obtain ⟨held,course,code,input,sent⟩ := old.held.loop live old.code own (next_step stepped).2.2
        exact ⟨held,code,(congrArg Buffer.readable input).trans old.drained,sent.trans old.sent,course⟩
      · cases taken
  · cases label with
    | data byte more => simp [CoroEchoServer.next,closed.no_frame] at taken
    | loop label =>
      simp only [CoroEchoServer.next] at taken
      split at taken
      · rename_i own
        rw [closed.stuck own] at taken
        cases taken
      · cases taken

theorem preserves : machine.Preserves (fun _ _ => True) Serves where
  start := by
    intro s origin
    obtain ⟨fd,made,none⟩ := origin
    have same := accepted_parts made
    refine ⟨?_,?_,?_,?_,.inl ?_⟩
    · rw [same]
      exact ⟨started_outgoing fd true,Buffer.new_valid kInitialSize,rfl,rfl,rfl,fun some => absurd rfl some⟩
    · rw [same]
      exact List.not_mem_nil
    · rw [same]
      exact Buffer.new_readable kInitialSize
    · rw [same,none]
      rfl
    · rw [same]
      refine ⟨rfl,rfl,rfl,rfl,⟨_,rfl,?_⟩,iff_of_false Bool.false_ne_true fun some => some (Buffer.new_readable kInitialSize)⟩
      exact Channel.enableReading_writing.trans (Channel.none_not_writing rfl)
  step _ _ _ old _ taken := old.next taken

-- Each chunk goes back whole and in order, the loop is asked for EPOLLOUT as
-- long as some of it waits, and no assert fails on the way.
theorem echoes_every_chunk (path : machine.Reached s) :
    s.conn.taken ++ s.conn.conn.outputBuffer.readable = s.received.flatten ∧
    s.conn.conn.inputBuffer.readable = [] ∧
    (s.conn.conn.connected = true →
      (s.conn.conn.channel.channel.any (·.isWriting) = true ↔ s.conn.conn.outputBuffer.readable ≠ [])) ∧
    ∀ byte more rest, s.conn.conn.connected = true → s.conn.frames = .read :: rest → (byte :: more).length ≤ bufBytes →
      (next s (.data byte more)).isSome = true := by
  have old := preserves.reached path
  refine ⟨old.sent ▸ old.held.outgoing.bytes,old.drained,?_,?_⟩
  · intro connected
    rcases old.course with live | closed
    · obtain ⟨c,found,writing⟩ := live.channel
      rw [found,Option.any_some,writing]
      exact live.backlog
    · rw [closed.connected] at connected
      cases connected
  · intro byte more rest connected top short
    rcases old.course with live | closed
    · obtain ⟨_,found,_⟩ := old.held.data live old.drained top short s.received
      exact Option.isSome_of_mem found
    · rw [closed.connected] at connected
      cases connected

-- Two bytes come in, one goes back, and the peer closes.
def oneOfTwo : List Label :=
  [.loop (.event EPOLLIN),.data 104 [105],.loop .handled,.loop (.event EPOLLOUT),.loop (.frame (.write (.wrote 1))),
    .loop .handled,.loop (.event EPOLLIN),.loop (.frame (.read (.bytes [])))]

theorem one_of_two_and_open_descriptor : ∃ s, machine.run ⟨started 3 true,[]⟩ oneOfTwo = some s ∧ s.received = [[104,105]] ∧
    s.conn.taken = [104] ∧ s.conn.taken ++ s.conn.conn.outputBuffer.readable = s.received.flatten := by
  have found : (machine.run ⟨started 3 true,[]⟩ oneOfTwo).map (fun s => (s.received,s.conn.taken)) =
      some ([[104,105]],[104]) := by decide +kernel
  obtain ⟨s,ran,parts⟩ := Option.map_eq_some_iff.mp found
  simp only [Prod.mk.injEq] at parts
  have path : machine.Reached s := Machine.Reached.run (.start ⟨3,rfl,rfl⟩) ran
  exact ⟨s,ran,parts.1,parts.2,(echoes_every_chunk path).1⟩

end CoroEchoServer
end NewMuduo
