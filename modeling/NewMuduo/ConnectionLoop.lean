import NewMuduo.BufferRuns
import NewMuduo.TcpConnection

namespace NewMuduo.ConnLoop
variable {w : ConnLoop}

-- What code on the loop thread can do with a connection: the public members,
-- the two members other threads post, and any use of inputBuffer().
inductive Call where
  | send (message : List UInt8) (result : DirectResult)
  | sendInLoop (message : List UInt8) (result : DirectResult)
  | shutdown
  | shutdownInLoop
  | forceClose
  | startRead
  | stopRead
  | inputBuffer (op : Buffer.Op)
  deriving DecidableEq, Repr

def useInput (w : ConnLoop) (op : Buffer.Op) : Option ConnLoop :=
  if op.Contract w.conn.inputBuffer then
    (op.call w.conn.inputBuffer).map fun after => {w with conn := {w.conn with inputBuffer := after}}
  else none

def perform (w : ConnLoop) : Call → Option ConnLoop
  | .send message result => if DirectResult.Fits message.length result then w.send message result else none
  | .sendInLoop message result => if DirectResult.Fits message.length result then w.sendInLoop message result else none
  | .shutdown => some w.shutdown
  | .shutdownInLoop => some w.shutdownInLoop
  | .forceClose => some w.forceClose
  | .startRead => some w.startRead
  | .stopRead => some w.stopRead
  | .inputBuffer op => w.useInput op

-- What a call on the connection does.
inductive Performed (w : ConnLoop) : Call → ConnLoop → Prop where
  | send {message : List UInt8} {result : DirectResult} : w.conn.state = .kConnected → DirectResult.Fits message.length result →
      w.sendInLoop message result = some after → Performed w (.send message result) after
  | refused {message : List UInt8} {result : DirectResult} : w.conn.state ≠ .kConnected → Performed w (.send message result) w
  | sendInLoop {message : List UInt8} {result : DirectResult} : DirectResult.Fits message.length result →
      w.sendInLoop message result = some after → Performed w (.sendInLoop message result) after
  | shutdown : Performed w .shutdown w.shutdown
  | shutdownInLoop : Performed w .shutdownInLoop w.shutdownInLoop
  | forceClose : Performed w .forceClose w.forceClose
  | startRead : Performed w .startRead w.startRead
  | stopRead : Performed w .stopRead w.stopRead
  | inputBuffer {op : Buffer.Op} {inputBuffer : Buffer} : op.Contract w.conn.inputBuffer →
      op.call w.conn.inputBuffer = some inputBuffer →
      Performed w (.inputBuffer op) {w with conn := {w.conn with inputBuffer := inputBuffer}}

theorem perform_parts {use : Call} (taken : w.perform use = some after) : Performed w use after := by
  cases use with
  | send message result =>
    simp only [perform,send] at taken
    split at taken
    · rename_i fits
      split at taken
      · rename_i connected
        exact .send connected fits taken
      · rename_i closed
        cases taken
        exact .refused closed
    · cases taken
  | sendInLoop message result =>
    simp only [perform] at taken
    split at taken
    · rename_i fits
      exact .sendInLoop fits taken
    · cases taken
  | shutdown => cases taken; exact .shutdown
  | shutdownInLoop => cases taken; exact .shutdownInLoop
  | forceClose => cases taken; exact .forceClose
  | startRead => cases taken; exact .startRead
  | stopRead => cases taken; exact .stopRead
  | inputBuffer op =>
    simp only [perform,useInput] at taken
    split at taken
    · rename_i met
      obtain ⟨inputBuffer,called,same⟩ := Option.map_eq_some_iff.mp taken
      rw [← same]
      exact .inputBuffer met called
    · cases taken

-- A message that reaches sendInLoop is dropped when its own direct write fails
-- and errno is EPIPE or ECONNRESET at the second test.
def accepts (w : ConnLoop) : DirectResult → Bool
  | .wrote _ => true
  | .error errno logged =>
    !(w.writesDirectly && errno != .EWOULDBLOCK && (logged == .EPIPE || logged == .ECONNRESET))

def Call.accepted (w : ConnLoop) : Call → List (List UInt8)
  | .send message result => if w.conn.state = .kConnected ∧ w.accepts result then [message] else []
  | .sendInLoop message result =>
    if w.conn.state ≠ .kDisconnected ∧ w.accepts result then [message] else []
  | _ => []

-- The kernel's answer to the system call of the frame that runs next.
inductive Answer where
  | none
  | read (result : Buffer.ReadResult)
  | write (result : WriteResult)
  deriving DecidableEq, Repr

def pop (w : ConnLoop) (rest : List Frame) : ConnLoop := {w with frames := rest}

def runFrame (w : ConnLoop) (answer : Answer) : Option ConnLoop :=
  match w.frames,answer with
  | .hup :: rest,.none => some (w.pop rest).handleClose
  | .error :: rest,.none => some (w.pop rest)
  | .read :: rest,.read result =>
    if result.Fits w.conn.inputBuffer then (w.pop rest).handleRead result else none
  | .write :: rest,.write result =>
    if WriteResult.Fits w.conn.outputBuffer.readableBytes result then (w.pop rest).handleWrite result else none
  | .userCode :: rest,.none => some (w.pop rest)
  | .closeCallback :: rest,.none => some {w.pop rest with closes := w.closes + 1}
  | .remove :: rest,.none => some (w.pop rest).remove
  | _,_ => none

def runFunctor (w : ConnLoop) : Functor → ConnLoop
  | .writeCompleteCallback => w.call [.userCode]
  | .highWaterMarkCallback _ => w.call [.userCode]
  | .forceCloseInLoop => w.forceCloseInLoop
  | .connectDestroyed => w.connectDestroyed

-- User code runs in a callback of this connection or in other handlers and
-- functors of the loop.
def userRuns (w : ConnLoop) : Bool :=
  match w.frames with
  | [] => true
  | frame :: _ => frame == .userCode

-- The connection, the messages accepted and whether the server has posted
-- connectDestroyed.
structure Life where
  loop : ConnLoop
  accepted : List (List UInt8)
  removed : Bool

inductive Label where
  | user (call : Call)
  | epoll_wait (revents : BitVec 32)
  | handleEvent
  | frame (answer : Answer)
  | removeConnectionInLoop
  | functor
  deriving DecidableEq, Repr

-- epoll_wait reports an event of a registered descriptor when no handler runs;
-- the functors of the loop run after the reported events.
def next (admits : BitVec 32 → Bool) (s : Life) : Label → Option Life
  | .user call =>
    if s.loop.userRuns then
      (s.loop.perform call).map fun after => ⟨after,s.accepted ++ call.accepted s.loop,s.removed⟩
    else none
  | .epoll_wait revents =>
    if s.loop.frames = [] ∧ s.loop.active = none ∧ (s.loop.poller.interest s.loop.conn.channel.fd).isSome ∧ admits revents then
      some {s with loop := {s.loop with active := some revents}}
    else none
  | .handleEvent =>
    match s.loop.frames,s.loop.active with
    | [],some revents => some {s with loop := {s.loop with active := none,frames := callbacks revents}}
    | _,_ => none
  | .frame answer => (s.loop.runFrame answer).map fun after => {s with loop := after}
  | .removeConnectionInLoop =>
    if 0 < s.loop.closes ∧ s.removed = false then
      some {s with loop := s.loop.queueInLoop .connectDestroyed,removed := true}
    else none
  | .functor =>
    match s.loop.frames,s.loop.active,s.loop.pendingFunctors with
    | [],none,cb :: rest => some {s with loop := {s.loop with pendingFunctors := rest}.runFunctor cb}
    | _,_,_ => none

def construct (conn : TcpConnection) : ConnLoop :=
  ⟨conn,.new,[],none,[],[],[],[],0,0,0⟩

-- A new connection with its callbacks set.
def configured (fd highWaterMark : Nat) (complete high : Bool) : TcpConnection :=
  {TcpConnection.new fd with
    writeCompleteCallback := complete
    highWaterMarkCallback := high
    highWaterMark := highWaterMark}

-- connectEstablished has called connectionCallback_.
def established (fd highWaterMark : Nat) (complete high : Bool) : Life :=
  ⟨(construct (configured fd highWaterMark complete high)).connectEstablished,[],false⟩

def life (admits : BitVec 32 → Bool) : Machine Life Label where
  start s := ∃ fd highWaterMark complete high, s = established fd highWaterMark complete high
  next := next admits

-- Each label with what it needs and what it leaves.
inductive Step (admits : BitVec 32 → Bool) (s : Life) : Label → Life → Prop where
  | user (use : Call) : s.loop.userRuns = true → s.loop.perform use = some after →
      Step admits s (.user use) ⟨after,s.accepted ++ use.accepted s.loop,s.removed⟩
  | epoll_wait : s.loop.frames = [] → s.loop.active = none →
      (s.loop.poller.interest s.loop.conn.channel.fd).isSome = true → admits revents = true →
      Step admits s (.epoll_wait revents) {s with loop := {s.loop with active := some revents}}
  | handleEvent : s.loop.frames = [] → s.loop.active = some revents →
      Step admits s .handleEvent {s with loop := {s.loop with active := none,frames := callbacks revents}}
  | frame : s.loop.runFrame answer = some after → Step admits s (.frame answer) {s with loop := after}
  | removeConnectionInLoop : 0 < s.loop.closes →
      Step admits s .removeConnectionInLoop {s with loop := s.loop.queueInLoop .connectDestroyed,removed := true}
  | functor : s.loop.frames = [] → s.loop.active = none → s.loop.pendingFunctors = cb :: rest →
      Step admits s .functor {s with loop := {s.loop with pendingFunctors := rest}.runFunctor cb}

theorem next_step (taken : next admits s label = some after) : Step admits s label after := by
  cases label with
  | user call =>
    simp only [next] at taken
    split at taken
    · rename_i runs
      obtain ⟨_,performed,same⟩ := Option.map_eq_some_iff.mp taken
      rw [← same]
      exact .user call runs performed
    · cases taken
  | epoll_wait revents =>
    simp only [next] at taken
    split at taken
    · rename_i able
      cases taken
      exact .epoll_wait able.1 able.2.1 able.2.2.1 able.2.2.2
    · cases taken
  | handleEvent =>
    simp only [next] at taken
    split at taken
    · rename_i ended reported
      cases taken
      exact .handleEvent ended reported
    · cases taken
  | frame answer =>
    obtain ⟨_,ran,same⟩ := Option.map_eq_some_iff.mp taken
    rw [← same]
    exact .frame ran
  | removeConnectionInLoop =>
    simp only [next] at taken
    split at taken
    · rename_i able
      cases taken
      exact .removeConnectionInLoop able.1
    · cases taken
  | functor =>
    simp only [next] at taken
    split at taken
    · rename_i ended idle found
      cases taken
      exact .functor ended idle found
    · cases taken

@[simp] theorem request_output (op : Channel.Op) : (w.request op).conn.outputBuffer = w.conn.outputBuffer := rfl

theorem request_isReading (op : Channel.Op) :
    (w.request op).conn.channel.isReading = (w.conn.channel.request op).isReading := by
  simp [request,Channel.isReading]

theorem request_wantsInput (op : Channel.Op) :
    (w.request op).conn.channel.wantsInput = (w.conn.channel.request op).wantsInput := by
  simp [request,Channel.wantsInput]

theorem request_isWriting (op : Channel.Op) :
    (w.request op).conn.channel.isWriting = (w.conn.channel.request op).isWriting := by
  simp [request,Channel.isWriting]

end NewMuduo.ConnLoop
