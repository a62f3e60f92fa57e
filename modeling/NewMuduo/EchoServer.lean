import NewMuduo.ConnectionEffects

namespace NewMuduo

-- examples/echo_server.cpp on one connection of its TcpServer. received
-- records what each readv gave.
structure EchoServer where
  life : ConnLoop.Life
  received : List (List UInt8)

namespace EchoServer
open ConnLoop

-- "quit\r\n" and "quit\n".
def quits (msg : List UInt8) : Bool := msg == [113,117,105,116,13,10] || msg == [113,117,105,116,10]

-- EchoServer::onMessage, with the answer to the write that send may make.
def onMessage (admits : BitVec 32 → Bool) (life : Life) (write : DirectResult) : Option Life := do
  let (msg,_) ← life.loop.conn.inputBuffer.retrieveAllAsString
  let life ← ConnLoop.next admits life (.user (.inputBuffer .retrieveAllAsString))
  let life ← ConnLoop.next admits life (.user (.send msg write))
  if quits msg then ConnLoop.next admits life (.user .shutdown) else some life

-- What the loop does by itself. onConnection, the user code of every other
-- callback, only logs.
def loopOwn : ConnLoop.Label → Bool
  | .user _ | .frame (.read _) => false
  | _ => true

inductive Label where
  | read (result : Buffer.ReadResult) (write : DirectResult)
  | loop (label : ConnLoop.Label)
  deriving DecidableEq, Repr

-- handleRead calls messageCallback_ when it has got bytes, and then goes on.
def next (admits : BitVec 32 → Bool) (s : EchoServer) : Label → Option EchoServer
  | .read result write => do
    let life ← ConnLoop.next admits s.life (.frame (.read result))
    match result with
    | .bytes (byte :: more) =>
      let life ← onMessage admits life write
      let life ← ConnLoop.next admits life (.frame .none)
      some ⟨life,s.received ++ [byte :: more]⟩
    | _ => some {s with life := life}
  | .loop label => if loopOwn label then (ConnLoop.next admits s.life label).map fun life => {s with life := life} else none

def machine (admits : BitVec 32 → Bool) : Machine EchoServer Label where
  start s := (ConnLoop.life admits).start s.life ∧ s.received = []
  next := next admits

-- After no failed write of a message is errno EPIPE or ECONNRESET at the second
-- test: such a message is dropped, and the connection goes on.
def Unbroken (s : EchoServer) : Label → Prop
  | .read (.bytes (_ :: _)) write => s.life.loop.accepts write = true
  | _ => True

section
variable {w after : ConnLoop} {s reached : Life} {admits : BitVec 32 → Bool}

-- The input buffer is as it was, and state_ changes only when the connection
-- is reported down.
structure Keeps (w after : ConnLoop) : Prop where
  input : after.conn.inputBuffer = w.conn.inputBuffer
  state : after.conn.state = w.conn.state ∨ after.conn.state = .kDisconnected ∧ 0 < after.downs
  downs : w.downs ≤ after.downs

theorem Keeps.same (input : after.conn.inputBuffer = w.conn.inputBuffer) (state : after.conn.state = w.conn.state)
    (downs : after.downs = w.downs) : Keeps w after := ⟨input,.inl state,Nat.le_of_eq downs.symm⟩

-- Only other parts of the state changed first.
theorem Keeps.behind {middle : ConnLoop} (old : Keeps middle after) (conn : middle.conn = w.conn)
    (downs : middle.downs = w.downs) : Keeps w after := by
  obtain ⟨input,state,more⟩ := old
  rw [conn] at input state
  rw [downs] at more
  exact ⟨input,state,more⟩

theorem exchanged_keeps (exchanged : Exchanged w after) : after.conn.inputBuffer = w.conn.inputBuffer ∧
    after.conn.state = w.conn.state ∧ after.frames = w.frames ∧ after.downs = w.downs := by
  cases exchanged with
  | alone => exact ⟨rfl,rfl,rfl,rfl⟩
  | enableWriting => exact ⟨rfl,rfl,rfl,rfl⟩
  | disableWriting => exact ⟨rfl,rfl,rfl,rfl⟩

theorem handleClose_keeps (w : ConnLoop) : Keeps w w.handleClose := ⟨rfl,.inr ⟨rfl,Nat.succ_pos _⟩,Nat.le_succ _⟩

theorem connectDestroyed_keeps (w : ConnLoop) : Keeps w w.connectDestroyed := by
  unfold ConnLoop.connectDestroyed
  split
  · exact ⟨rfl,.inr ⟨rfl,Nat.succ_pos _⟩,Nat.le_succ _⟩
  · exact .same rfl rfl rfl

theorem runFunctor_keeps (w : ConnLoop) (cb : Functor) : Keeps w (w.runFunctor cb) := by
  cases cb with
  | writeCompleteCallback => exact .same rfl rfl rfl
  | highWaterMarkCallback len => exact .same rfl rfl rfl
  | connectDestroyed => exact connectDestroyed_keeps w
  | forceCloseInLoop =>
    simp only [runFunctor,ConnLoop.forceCloseInLoop]
    split
    · exact handleClose_keeps w
    · exact .same rfl rfl rfl

theorem runFrame_keeps {answer : Answer} (valid : w.conn.outputBuffer.Valid) (other : ∀ result, answer ≠ .read result)
    (taken : w.runFrame answer = some after) : Keeps w after := by
  unfold ConnLoop.runFrame at taken
  split at taken
  · cases taken; exact (handleClose_keeps (w.pop _)).behind rfl rfl
  · cases taken; exact .same rfl rfl rfl
  · rename_i result _
    exact absurd rfl (other result)
  · rename_i rest result _
    split at taken
    · rename_i fits
      obtain ⟨input,state,_,downs⟩ := exchanged_keeps (handleWrite_exchanged (w := w.pop rest) valid fits taken)
      exact .same input state downs
    · cases taken
  · cases taken; exact .same rfl rfl rfl
  · cases taken; exact .same rfl rfl rfl
  · cases taken; exact .same rfl rfl rfl
  · cases taken

theorem loop_keeps {label : ConnLoop.Label} (stream : Stream s.accepted s.loop) (own : loopOwn label = true)
    (taken : ConnLoop.next admits s label = some reached) :
    Keeps s.loop reached.loop ∧ reached.accepted = s.accepted := by
  cases next_step taken with
  | user use _ _ => cases own
  | epoll_wait => exact ⟨.same rfl rfl rfl,rfl⟩
  | handleEvent => exact ⟨.same rfl rfl rfl,rfl⟩
  | frame ran =>
    refine ⟨runFrame_keeps stream.output (fun result same => ?_) ran,rfl⟩
    rw [same] at own
    cases own
  | removeConnectionInLoop => exact ⟨.same rfl rfl rfl,rfl⟩
  | functor => exact ⟨(runFunctor_keeps _ _).behind rfl rfl,rfl⟩

variable (admits) in
theorem user_next {use : Call} (runs : s.loop.userRuns = true) (performed : s.loop.perform use = some after) :
    ConnLoop.next admits s (.user use) = some ⟨after,s.accepted ++ use.accepted s.loop,s.removed⟩ := by
  simp only [ConnLoop.next,runs,if_true,performed,Option.map_some]

theorem retrieveAllAsString_yields {b : Buffer} (valid : b.Valid) : ∃ drained, b.retrieveAllAsString = some (b.readable,drained) ∧
    Buffer.Op.call b .retrieveAllAsString = some drained ∧ drained.Valid ∧ drained.readable = [] := by
  obtain ⟨drained,called,kept,empty⟩ := Buffer.Op.call_yields valid .retrieveAllAsString trivial
  obtain ⟨pair,found,same⟩ := Option.map_eq_some_iff.mp called
  have parts := found
  rw [Buffer.retrieveAllAsString,Buffer.retrieveAsString,if_pos (Nat.le_refl _)] at parts
  obtain ⟨after,_,rfl⟩ := Option.map_eq_some_iff.mp parts
  cases same
  rw [Buffer.peek_readable valid (Nat.le_refl _),← Buffer.readable_length valid,List.take_length] at found
  exact ⟨after,found,called,kept,empty⟩

variable (admits) in
-- The send of onMessage: dropped when the connection is going down.
theorem send_yields {msg : List UInt8} {rest : List Frame} (stream : Stream s.accepted s.loop)
    (frames : s.loop.frames = .userCode :: rest) (write : DirectResult) (fits : write.Fits msg.length) :
    ∃ reached, ConnLoop.next admits s (.user (.send msg write)) = some reached ∧
      Stream reached.accepted reached.loop ∧ reached.loop.frames = .userCode :: rest ∧
      reached.loop.conn.inputBuffer = s.loop.conn.inputBuffer ∧ reached.loop.conn.state = s.loop.conn.state ∧
      reached.loop.downs = s.loop.downs ∧
      reached.accepted = s.accepted ++ (if s.loop.conn.state = .kConnected ∧ s.loop.accepts write then [msg] else []) := by
  have runs : s.loop.userRuns = true := by simp [userRuns,frames]
  by_cases connected : s.loop.conn.state = .kConnected
  · obtain ⟨after,sent,_⟩ := stream.sendInLoop msg write fits
    have performed : s.loop.perform (.send msg write) = some after := by
      simp only [perform,fits,if_true,ConnLoop.send,connected,sent]
    obtain ⟨input,state,kept,downs⟩ := exchanged_keeps (sendInLoop_exchanged stream.output fits sent)
    exact ⟨_,user_next admits runs performed,stream.perform _ performed,kept.trans frames,input,state,downs,rfl⟩
  · have performed : s.loop.perform (.send msg write) = some s.loop := by
      simp only [perform,fits,if_true,ConnLoop.send,connected,if_false]
    exact ⟨_,user_next admits runs performed,stream.perform _ performed,frames,rfl,rfl,rfl,rfl⟩

theorem shutdown_keeps (w : ConnLoop) : w.shutdown.conn.inputBuffer = w.conn.inputBuffer ∧ w.shutdown.frames = w.frames ∧
    w.shutdown.downs = w.downs := by
  unfold ConnLoop.shutdown shutdownInLoop
  split
  · split
    · exact ⟨rfl,rfl,rfl⟩
    · exact ⟨rfl,rfl,rfl⟩
  · exact ⟨rfl,rfl,rfl⟩

-- messageCallback_ with these bytes in the input buffer.
variable (admits) in
theorem onMessage_yields {msg : List UInt8} {rest : List Frame} (stream : Stream s.accepted s.loop)
    (frames : s.loop.frames = .userCode :: rest) (input : s.loop.conn.inputBuffer.readable = msg) (write : DirectResult)
    (fits : write.Fits msg.length) : ∃ reached, onMessage admits s write = some reached ∧
      Stream reached.accepted reached.loop ∧ reached.loop.frames = .userCode :: rest ∧
      reached.loop.conn.inputBuffer.readable = [] ∧
      reached.accepted = s.accepted ++ (if s.loop.conn.state = .kConnected ∧ s.loop.accepts write then [msg] else []) ∧
      (quits msg = false → reached.loop.conn.state = s.loop.conn.state) ∧
      (quits msg = true → reached.loop.conn.state ≠ .kConnected) ∧ reached.loop.downs = s.loop.downs := by
  obtain ⟨drained,found,called,valid,empty⟩ := retrieveAllAsString_yields stream.input
  have runs : s.loop.userRuns = true := by simp [userRuns,frames]
  have performed : s.loop.perform (.inputBuffer .retrieveAllAsString) =
      some {s.loop with conn := {s.loop.conn with inputBuffer := drained}} := by
    simp [perform,useInput,called,Buffer.Op.Contract]
  have taken := user_next admits runs performed
  obtain ⟨sent,sending,streaming,top,same,state,downs,accepted⟩ := send_yields admits
    (s := ⟨{s.loop with conn := {s.loop.conn with inputBuffer := drained}},s.accepted ++ [],s.removed⟩)
    (stream.perform (.inputBuffer .retrieveAllAsString) performed) frames write fits
  rw [List.append_nil] at accepted
  have left : sent.loop.conn.inputBuffer.readable = [] := by rw [same]; exact empty
  cases quit : quits msg with
  | false =>
    refine ⟨sent,?_,streaming,top,left,accepted,fun _ => state,fun absent => (by cases absent),downs⟩
    simp only [onMessage,found,input,Option.bind_eq_bind,Option.bind_some,taken]
    rw [show Call.accepted s.loop (.inputBuffer .retrieveAllAsString) = [] from rfl,sending]
    simp [quit]
  | true =>
    have able : sent.loop.userRuns = true := by simp [userRuns,top]
    have down := user_next (s := sent) admits able (show sent.loop.perform .shutdown = some sent.loop.shutdown from rfl)
    obtain ⟨input_kept,frames_kept,downs_kept⟩ := shutdown_keeps sent.loop
    refine ⟨⟨sent.loop.shutdown,sent.accepted ++ Call.accepted sent.loop .shutdown,sent.removed⟩,?_,
      streaming.perform .shutdown rfl,frames_kept.trans top,?_,?_,fun absent => (by cases absent),
      fun _ => shutdown_disconnects _,downs_kept.trans downs⟩
    · simp only [onMessage,found,input,Option.bind_eq_bind,Option.bind_some,taken]
      rw [show Call.accepted s.loop (.inputBuffer .retrieveAllAsString) = [] from rfl,sending]
      simp only [Option.bind_some,quit,if_true]
      exact down
    · dsimp only
      rw [input_kept]
      exact left
    · dsimp only
      rw [accepted]
      simp [Call.accepted]
      rfl

theorem onMessage_fits {msg : List UInt8} {write : DirectResult} (stream : Stream s.accepted s.loop)
    (input : s.loop.conn.inputBuffer.readable = msg) (told : onMessage admits s write = some reached) : write.Fits msg.length := by
  obtain ⟨drained,found,_⟩ := retrieveAllAsString_yields stream.input
  obtain ⟨pair,same,told⟩ := Option.bind_eq_some_iff.mp told
  cases found.symm.trans same
  obtain ⟨read,_,told⟩ := Option.bind_eq_some_iff.mp told
  obtain ⟨sent,sending,_⟩ := Option.bind_eq_some_iff.mp told
  simp only [ConnLoop.next,perform,input] at sending
  by_contra unfit
  simp [unfit] at sending

theorem read_frame {result : Buffer.ReadResult} (taken : ConnLoop.next admits s (.frame (.read result)) = some reached) :
    ∃ rest after, s.loop.frames = .read :: rest ∧ result.Fits s.loop.conn.inputBuffer ∧
      (s.loop.pop rest).handleRead result = some after ∧ reached = {s with loop := after} := by
  obtain ⟨after,ran,same⟩ := Option.map_eq_some_iff.mp taken
  cases top : s.loop.frames with
  | nil => simp [runFrame,top] at ran
  | cons frame rest =>
    cases frame <;> simp only [runFrame,top,reduceCtorEq] at ran
    split at ran
    · rename_i fits
      exact ⟨rest,after,rfl,fits,ran,same.symm⟩
    · cases ran

-- A frame that reads and gets nothing.
theorem nothing_read {result : Buffer.ReadResult} (stream : Stream s.accepted s.loop) (none : result.data = [])
    (taken : ConnLoop.next admits s (.frame (.read result)) = some reached) :
    reached.loop.conn.inputBuffer.readable = s.loop.conn.inputBuffer.readable ∧ reached.accepted = s.accepted ∧
      (reached.loop.conn.state = s.loop.conn.state ∨ reached.loop.conn.state = .kDisconnected ∧ 0 < reached.loop.downs) ∧
      s.loop.downs ≤ reached.loop.downs := by
  obtain ⟨rest,after,_,fits,handled,rfl⟩ := read_frame taken
  obtain ⟨filled,read,_,contents⟩ := Buffer.readFd_yields stream.input _ fits
  rw [none,List.append_nil] at contents
  simp only [ConnLoop.handleRead,pop,read,Option.bind_eq_bind,Option.bind_some] at handled
  cases result with
  | error => cases handled; exact ⟨contents,rfl,.inl rfl,Nat.le_refl _⟩
  | bytes data =>
    cases data with
    | nil => cases handled; exact ⟨contents,rfl,.inr ⟨rfl,Nat.succ_pos _⟩,Nat.le_succ _⟩
    | cons byte more => cases none

-- handleRead fills the input buffer and calls messageCallback_.
variable (admits) in
theorem handleRead_yields {byte : UInt8} {more : List UInt8} {rest : List Frame} (stream : Stream s.accepted s.loop)
    (frames : s.loop.frames = .read :: rest) (fits : (Buffer.ReadResult.bytes (byte :: more)).Fits s.loop.conn.inputBuffer) :
    ∃ reached, ConnLoop.next admits s (.frame (.read (.bytes (byte :: more)))) = some reached ∧
      Stream reached.accepted reached.loop ∧ reached.loop.frames = .userCode :: rest ∧ reached.accepted = s.accepted ∧
      reached.loop.conn.inputBuffer.readable = s.loop.conn.inputBuffer.readable ++ (byte :: more) ∧
      reached.loop.conn.state = s.loop.conn.state ∧ (∀ write, reached.loop.accepts write = s.loop.accepts write) ∧
      reached.loop.downs = s.loop.downs := by
  obtain ⟨filled,read,_,contents⟩ := Buffer.readFd_yields stream.input _ fits
  have ran : s.loop.runFrame (.read (.bytes (byte :: more))) = some
      (({s.loop.pop rest with conn := {s.loop.conn with inputBuffer := filled}} : ConnLoop).call [.userCode]) := by
    simp [runFrame,frames,fits,ConnLoop.handleRead,pop,read]
  exact ⟨⟨({s.loop.pop rest with conn := {s.loop.conn with inputBuffer := filled}} : ConnLoop).call [.userCode],s.accepted,s.removed⟩,
    by simp only [ConnLoop.next,ran,Option.map_some],stream.runFrame ran,rfl,rfl,contents,rfl,fun _ => rfl,rfl⟩

variable (admits) in
theorem callback_returns {rest : List Frame} (frames : s.loop.frames = .userCode :: rest) :
    ConnLoop.next admits s (.frame .none) = some {s with loop := s.loop.pop rest} := by
  simp [ConnLoop.next,runFrame,frames]

end

-- What came before the connection left kConnected was sent back, each chunk as
-- one message and in order. It leaves with the first quit or when it goes down.
structure Echoes (s : EchoServer) : Prop where
  stream : Stream s.life.accepted s.life.loop
  drained : s.life.loop.conn.inputBuffer.readable = []
  order : ∃ later, s.received = s.life.accepted ++ later ∧ (s.life.loop.conn.state = .kConnected → later = [])
  last : ∀ msg ∈ s.life.accepted.dropLast, quits msg = false
  going : s.life.loop.conn.state = .kConnected → ∀ msg ∈ s.life.accepted, quits msg = false
  left : s.life.loop.conn.state ≠ .kConnected → (∃ msg ∈ s.life.accepted, quits msg = true) ∨ 0 < s.life.loop.downs

variable {s after : EchoServer} {admits : BitVec 32 → Bool} {label : Label}

theorem Echoes.loop {life : Life} (old : Echoes s) (stream : Stream life.accepted life.loop)
    (input : life.loop.conn.inputBuffer.readable = [])
    (state : life.loop.conn.state = s.life.loop.conn.state ∨ life.loop.conn.state = .kDisconnected ∧ 0 < life.loop.downs)
    (downs : s.life.loop.downs ≤ life.loop.downs) (accepted : life.accepted = s.life.accepted) : Echoes {s with life := life} := by
  obtain ⟨later,order,open_⟩ := old.order
  have back : life.loop.conn.state = .kConnected → s.life.loop.conn.state = .kConnected := by
    intro connected
    rcases state with same | closed
    · exact same ▸ connected
    · rw [closed.1] at connected
      cases connected
  refine ⟨stream,input,⟨later,?_,fun connected => open_ (back connected)⟩,?_,?_,?_⟩
  · rw [accepted]
    exact order
  · rw [accepted]
    exact old.last
  · rw [accepted]
    exact fun connected => old.going (back connected)
  · rw [accepted]
    intro gone
    rcases state with same | closed
    · exact (old.left (same ▸ gone)).imp_right fun some => Nat.lt_of_lt_of_le some downs
    · exact .inr closed.2

-- One chunk: no assert fails on the way through onMessage, and the echo goes on.
variable (admits) in
theorem Echoes.message {byte : UInt8} {more : List UInt8} {write : DirectResult} {rest : List Frame} (old : Echoes s)
    (frames : s.life.loop.frames = .read :: rest)
    (fits : (Buffer.ReadResult.bytes (byte :: more)).Fits s.life.loop.conn.inputBuffer)
    (writes : write.Fits (byte :: more).length) :
    ∃ after, next admits s (.read (.bytes (byte :: more)) write) = some after ∧
      (s.life.loop.accepts write = true → Echoes after) := by
  obtain ⟨filled,reading,stream,top,same,contents,state,accepts,down⟩ := handleRead_yields admits old.stream frames fits
  rw [old.drained,List.nil_append] at contents
  obtain ⟨told,telling,streaming,code,input,accepted,stays,leaves,downs⟩ :=
    onMessage_yields admits stream top contents write writes
  rw [same,state,accepts] at accepted
  rw [state] at stays
  rw [down] at downs
  have returns := callback_returns admits code
  refine ⟨⟨{told with loop := told.loop.pop rest},s.received ++ [byte :: more]⟩,?_,fun unbroken => ?_⟩
  · simp only [next,reading,Option.bind_eq_bind,Option.bind_some,telling,returns]
  obtain ⟨later,order,open_⟩ := old.order
  have kept : Stream told.accepted (told.loop.pop rest) := streaming.pop rest
  have same_downs : (told.loop.pop rest).downs = s.life.loop.downs := downs
  by_cases connected : s.life.loop.conn.state = .kConnected
  · simp only [connected,unbroken,and_self,if_true] at accepted
    refine ⟨kept,input,⟨[],?_,fun _ => rfl⟩,?_,?_,?_⟩
    · rw [order,open_ connected,accepted]
      simp
    · dsimp only
      rw [accepted,List.dropLast_concat]
      exact old.going connected
    · intro still msg member
      dsimp only at member
      rw [accepted] at member
      rcases List.mem_append.mp member with earlier | now
      · exact old.going connected msg earlier
      · rw [List.mem_singleton.mp now]
        by_contra quit
        exact leaves (by simpa using quit) still
    · intro gone
      refine .inl ⟨byte :: more,?_,?_⟩
      · dsimp only
        rw [accepted]
        exact List.mem_append_right _ List.mem_cons_self
      · by_contra on
        exact gone ((stays (by simpa using on)).trans connected)
  · have gone : told.loop.conn.state ≠ .kConnected := by
      cases quit : quits (byte :: more) with
      | true => exact leaves quit
      | false => rw [stays quit]; exact connected
    simp only [connected,false_and,if_false,List.append_nil] at accepted
    refine ⟨kept,input,⟨later ++ [byte :: more],?_,fun still => absurd still gone⟩,?_,fun still => absurd still gone,fun _ => ?_⟩
    · rw [order,accepted,List.append_assoc]
    · dsimp only
      rw [accepted]
      exact old.last
    · dsimp only
      rw [accepted,same_downs]
      exact old.left connected

theorem Echoes.next (old : Echoes s) (unbroken : Unbroken s label) (taken : next admits s label = some after) : Echoes after := by
  cases label with
  | loop label =>
    simp only [EchoServer.next] at taken
    split at taken
    · rename_i own
      obtain ⟨life,stepped,same⟩ := Option.map_eq_some_iff.mp taken
      rw [← same]
      obtain ⟨keeps,accepted⟩ := loop_keeps old.stream own stepped
      exact old.loop (next_stream old.stream stepped) (by rw [keeps.input]; exact old.drained) keeps.state keeps.downs accepted
    · cases taken
  | read result write =>
    obtain ⟨life,reading,told⟩ := Option.bind_eq_some_iff.mp taken
    have quiet : result.data = [] → after = {s with life := life} → Echoes after := by
      intro none same
      obtain ⟨input,accepted,state,downs⟩ := nothing_read old.stream none reading
      rw [same]
      exact old.loop (next_stream old.stream reading) (input.trans old.drained) state downs accepted
    cases result with
    | error => cases told; exact quiet rfl rfl
    | bytes data =>
      cases data with
      | nil => cases told; exact quiet rfl rfl
      | cons byte more =>
        obtain ⟨rest,_,frames,fits,_⟩ := read_frame reading
        obtain ⟨filled,same,stream,_,_,contents,_⟩ := handleRead_yields admits old.stream frames fits
        rw [old.drained,List.nil_append] at contents
        cases same.symm.trans reading
        obtain ⟨_,telling,_⟩ := Option.bind_eq_some_iff.mp told
        obtain ⟨_,found,kept⟩ := old.message admits frames fits (onMessage_fits stream contents telling)
        cases Option.some.inj (found.symm.trans taken)
        exact kept unbroken

theorem preserves : (machine admits).Preserves Unbroken Echoes where
  start := by
    intro s origin
    obtain ⟨⟨fd,highWaterMark,complete,high,same⟩,none⟩ := origin
    refine ⟨?_,?_,⟨[],?_,fun _ => rfl⟩,?_,?_,?_⟩
    · rw [same]
      exact established_stream fd highWaterMark complete high
    · rw [same]
      exact Buffer.new_readable kInitialSize
    · rw [same,none]
      rfl
    · rw [same]
      exact fun _ absent => (by cases absent)
    · rw [same]
      exact fun _ _ absent => (by cases absent)
    · rw [same]
      exact fun gone => absurd rfl gone
  step _ _ _ old unbroken taken := old.next unbroken taken

-- What the peer gets back is what it sent, up to the chunk that is a quit: the
-- bytes the kernel took, with those still buffered, are the chunks received
-- while the connection was up, in order and once each.
theorem echoes_until_quit (path : (machine admits).ReachedUnder Unbroken s) :
    (∃ echoed later, s.received = echoed ++ later ∧
      s.life.loop.taken ++ s.life.loop.conn.outputBuffer.readable = echoed.flatten ∧
      (∀ msg ∈ echoed.dropLast, quits msg = false) ∧
      (s.life.loop.conn.state = .kConnected → later = [] ∧ ∀ msg ∈ echoed, quits msg = false) ∧
      (s.life.loop.conn.state ≠ .kConnected → (∃ msg ∈ echoed, quits msg = true) ∨ 0 < s.life.loop.downs)) ∧
    (∀ issued ∈ s.life.loop.shutdowns, issued.1 ≠ .kDisconnected → issued.2 = []) ∧
    ∀ byte more rest write, s.life.loop.frames = .read :: rest →
      (Buffer.ReadResult.bytes (byte :: more)).Fits s.life.loop.conn.inputBuffer → write.Fits (byte :: more).length →
      (next admits s (.read (.bytes (byte :: more)) write)).isSome = true := by
  have old := preserves.reached path
  obtain ⟨later,order,open_⟩ := old.order
  refine ⟨⟨s.life.accepted,later,order,old.stream.bytes,old.last,fun connected => ⟨open_ connected,old.going connected⟩,old.left⟩,
    old.stream.shutdowns,?_⟩
  intro byte more rest write frames fits writes
  obtain ⟨_,found,_⟩ := old.message admits frames fits writes
  exact Option.isSome_of_mem found

theorem echoes_a_partial_write :
    ∃ s, (machine fun _ => true).run ⟨established 3 64 false false,[]⟩
        [.loop (.frame .none),.loop (.epoll_wait EPOLLIN),.loop .handleEvent,.read (.bytes [104,105]) (.wrote 1)] = some s ∧
      s.received = [[104,105]] ∧ s.life.loop.taken = [104] ∧
      ∃ echoed later, s.received = echoed ++ later ∧
        s.life.loop.taken ++ s.life.loop.conn.outputBuffer.readable = echoed.flatten ∧
        (∀ msg ∈ echoed.dropLast, quits msg = false) ∧
        (s.life.loop.conn.state = .kConnected → later = [] ∧ ∀ msg ∈ echoed, quits msg = false) ∧
        (s.life.loop.conn.state ≠ .kConnected → (∃ msg ∈ echoed, quits msg = true) ∨ 0 < s.life.loop.downs) := by
  have found : ((machine fun _ => true).run ⟨established 3 64 false false,[]⟩
        [.loop (.frame .none),.loop (.epoll_wait EPOLLIN),.loop .handleEvent,.read (.bytes [104,105]) (.wrote 1)]).map
        (fun s => (s.received,s.life.loop.taken)) = some ([[104,105]],[104]) := by decide +kernel
  obtain ⟨s,ran,parts⟩ := Option.map_eq_some_iff.mp found
  simp only [Prod.mk.injEq] at parts
  obtain ⟨received,taken⟩ := parts
  have met : (machine fun _ => true).Meets Unbroken ⟨established 3 64 false false,[]⟩
      [.loop (.frame .none),.loop (.epoll_wait EPOLLIN),.loop .handleEvent,.read (.bytes [104,105]) (.wrote 1)] :=
    Machine.meets_labels fun label member s => by
      simp only [List.mem_cons,List.not_mem_nil,or_false] at member
      rcases member with rfl | rfl | rfl | rfl
      · trivial
      · trivial
      · trivial
      · change s.life.loop.accepts (.wrote 1) = true
        simp [accepts]
  have path := Machine.ReachedUnder.along (m := machine fun _ => true) (.start ⟨⟨3,64,false,false,rfl⟩,rfl⟩) met ran
  exact ⟨s,ran,received,taken,(echoes_until_quit path).1⟩

end EchoServer
end NewMuduo
