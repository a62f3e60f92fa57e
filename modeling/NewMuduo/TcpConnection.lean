import NewMuduo.Buffer
import NewMuduo.EpollPoller

namespace NewMuduo

inductive StateE where
  | kDisconnected
  | kConnecting
  | kConnected
  | kDisconnecting
  deriving DecidableEq, Repr

inductive Errno where
  | EWOULDBLOCK
  | EPIPE
  | ECONNRESET
  | other (code : Nat)
  deriving DecidableEq, Repr

-- The return of ::write, with errno when it is negative.
inductive WriteResult where
  | wrote (n : Nat)
  | error (errno : Errno)
  deriving DecidableEq, Repr

-- The kernel takes no more than it is asked to.
def WriteResult.Fits (requested : Nat) : WriteResult → Prop
  | .wrote n => n ≤ requested
  | .error _ => True

instance : Decidable (WriteResult.Fits requested result) := by
  cases result <;> (unfold WriteResult.Fits; infer_instance)

-- The direct write of sendInLoop. When it fails, LOG_SYSERR may run before errno
-- is tested once more, and what it calls may leave another value there.
inductive DirectResult where
  | wrote (n : Nat)
  | error (errno logged : Errno)
  deriving DecidableEq, Repr

def DirectResult.write : DirectResult → WriteResult
  | .wrote n => .wrote n
  | .error errno _ => .error errno

def DirectResult.Fits (requested : Nat) (result : DirectResult) : Prop := result.write.Fits requested

instance : Decidable (DirectResult.Fits requested result) := inferInstanceAs (Decidable (WriteResult.Fits _ _))

-- net/TcpConnection.h. A callback member is present or not; what it runs is
-- the user's.
structure TcpConnection where
  state : StateE
  reading : Bool
  channel : Channel
  writeCompleteCallback : Bool
  highWaterMarkCallback : Bool
  highWaterMark : Nat
  inputBuffer : Buffer
  outputBuffer : Buffer
  deriving DecidableEq, Repr

def TcpConnection.new (fd : Nat) : TcpConnection :=
  ⟨.kConnecting,true,.new fd,false,false,64 * 1024 * 1024,.new kInitialSize,.new kInitialSize⟩

-- The closures that end up in pendingFunctors_ of the connection's loop.
inductive Functor where
  | writeCompleteCallback
  | highWaterMarkCallback (len : Nat)
  | forceCloseInLoop
  | connectDestroyed
  deriving DecidableEq, Repr

-- What is left to do of a running handleEventWithGuard, handleClose or
-- connectDestroyed; userCode is a callback of the user that has not returned.
inductive Frame where
  | hup
  | error
  | read
  | write
  | userCode
  | closeCallback
  | remove
  deriving DecidableEq, Repr

-- A connection on its loop thread: the object, its poller and functor queue,
-- the event that epoll_wait has reported for it and the frames of the code
-- that runs. The rest records what happened: the bytes the kernel took, state_
-- and the backlog at each SHUT_WR, state_ at each entry of handleClose and the
-- number of calls of each callback.
structure ConnLoop where
  conn : TcpConnection
  poller : EPollPoller Unit
  pendingFunctors : List Functor
  active : Option (BitVec 32)
  frames : List Frame
  taken : List UInt8
  shutdowns : List (StateE × List UInt8)
  handleCloses : List StateE
  ups : Nat
  downs : Nat
  closes : Nat

namespace ConnLoop
variable {w : ConnLoop}

def setState (w : ConnLoop) (state : StateE) : ConnLoop := {w with conn := {w.conn with state := state}}

def queueInLoop (w : ConnLoop) (cb : Functor) : ConnLoop :=
  {w with pendingFunctors := w.pendingFunctors ++ [cb]}

-- enableReading and its siblings: update() reaches the poller of the loop.
def request (w : ConnLoop) (op : Channel.Op) : ConnLoop :=
  let result := w.poller.updateChannel () (w.conn.channel.request op)
  {w with poller := result.1,conn := {w.conn with channel := result.2}}

def call (w : ConnLoop) (frames : List Frame) : ConnLoop := {w with frames := frames ++ w.frames}

def shutdownInLoop (w : ConnLoop) : ConnLoop :=
  if !w.conn.channel.isWriting then
    {w with shutdowns := w.shutdowns ++ [(w.conn.state,w.conn.outputBuffer.readable)]}
  else w

def queueWriteComplete (w : ConnLoop) : ConnLoop :=
  if w.conn.writeCompleteCallback then w.queueInLoop .writeCompleteCallback else w

-- Nothing is buffered and nothing waits for EPOLLOUT, so sendInLoop writes.
def writesDirectly (w : ConnLoop) : Bool :=
  !w.conn.channel.isWriting && w.conn.outputBuffer.readableBytes == 0

-- The first half of sendInLoop, with nwrote, remaining and faultError.
def directWrite (w : ConnLoop) (data : List UInt8) (result : DirectResult) : ConnLoop × Nat × Nat × Bool :=
  if w.writesDirectly then
    match result with
    | .wrote nwrote =>
      let remaining := data.length - nwrote
      let w := {w with taken := w.taken ++ data.take nwrote}
      (if remaining = 0 then w.queueWriteComplete else w,nwrote,remaining,false)
    | .error errno logged =>
      (w,0,data.length,errno != .EWOULDBLOCK && (logged == .EPIPE || logged == .ECONNRESET))
  else (w,0,data.length,false)

-- The second half: what was not written goes to outputBuffer_.
def bufferRest (w : ConnLoop) (data : List UInt8) (nwrote remaining : Nat) : Option ConnLoop := do
  let oldLen := w.conn.outputBuffer.readableBytes
  let w := if oldLen + remaining ≥ w.conn.highWaterMark ∧ oldLen < w.conn.highWaterMark ∧
      w.conn.highWaterMarkCallback then w.queueInLoop (.highWaterMarkCallback (oldLen + remaining)) else w
  let outputBuffer ← w.conn.outputBuffer.append ((data.drop nwrote).take remaining)
  let w := {w with conn := {w.conn with outputBuffer := outputBuffer}}
  some (if !w.conn.channel.isWriting then w.request .enableWriting else w)

def sendInLoop (w : ConnLoop) (data : List UInt8) (result : DirectResult) : Option ConnLoop :=
  if w.conn.state = .kDisconnected then some w
  else
    let (w,nwrote,remaining,faultError) := w.directWrite data result
    if remaining ≤ data.length then
      if !faultError ∧ 0 < remaining then w.bufferRest data nwrote remaining else some w
    else none

def send (w : ConnLoop) (message : List UInt8) (result : DirectResult) : Option ConnLoop :=
  if w.conn.state = .kConnected then w.sendInLoop message result else some w

-- runInLoop on the loop thread runs its argument at once.
def shutdown (w : ConnLoop) : ConnLoop :=
  if w.conn.state = .kConnected then (w.setState .kDisconnecting).shutdownInLoop else w

def forceClose (w : ConnLoop) : ConnLoop :=
  if w.conn.state = .kConnected ∨ w.conn.state = .kDisconnecting then
    (w.setState .kDisconnecting).queueInLoop .forceCloseInLoop
  else w

def startRead (w : ConnLoop) : ConnLoop :=
  if !w.conn.reading || !w.conn.channel.isReading then
    let w := w.request .enableReading
    {w with conn := {w.conn with reading := true}}
  else w

def stopRead (w : ConnLoop) : ConnLoop :=
  if w.conn.reading || w.conn.channel.isReading then
    let w := w.request .disableReading
    {w with conn := {w.conn with reading := false}}
  else w

def connectEstablished (w : ConnLoop) : ConnLoop :=
  let w := (w.setState .kConnected).request .enableReading
  {w with ups := w.ups + 1}.call [.userCode]

def handleClose (w : ConnLoop) : ConnLoop :=
  let w := {w with handleCloses := w.handleCloses ++ [w.conn.state]}
  let w := (w.setState .kDisconnected).request .disableAll
  {w with downs := w.downs + 1}.call [.userCode,.closeCallback]

def forceCloseInLoop (w : ConnLoop) : ConnLoop :=
  if w.conn.state = .kConnected ∨ w.conn.state = .kDisconnecting then w.handleClose else w

def remove (w : ConnLoop) : ConnLoop :=
  let result := w.poller.remove () w.conn.channel
  {w with poller := result.1,conn := {w.conn with channel := result.2}}

def connectDestroyed (w : ConnLoop) : ConnLoop :=
  if w.conn.state = .kConnected then
    let w := (w.setState .kDisconnected).request .disableAll
    {w with downs := w.downs + 1}.call [.userCode,.remove]
  else w.remove

-- handleError only logs SO_ERROR.
def handleRead (w : ConnLoop) (result : Buffer.ReadResult) : Option ConnLoop := do
  let inputBuffer ← w.conn.inputBuffer.readFd result
  let w := {w with conn := {w.conn with inputBuffer := inputBuffer}}
  match result with
  | .bytes (_ :: _) => some (w.call [.userCode])
  | .bytes [] => some w.handleClose
  | .error => some w

-- The end of handleWrite, when the last byte was taken.
def written (w : ConnLoop) : ConnLoop :=
  let w := (w.request .disableWriting).queueWriteComplete
  if w.conn.state = .kDisconnecting then w.shutdownInLoop else w

def handleWrite (w : ConnLoop) (result : WriteResult) : Option ConnLoop :=
  if w.conn.channel.isWriting then
    match result with
    | .wrote n =>
      if 0 < n then do
        let outputBuffer ← w.conn.outputBuffer.retrieve n
        let w := {w with
          taken := w.taken ++ w.conn.outputBuffer.readable.take n
          conn := {w.conn with outputBuffer := outputBuffer}}
        some (if w.conn.outputBuffer.readableBytes = 0 then w.written else w)
      else some w
    | .error _ => some w
  else some w

-- The callbacks of handleEventWithGuard that revents_ selects, in its order.
def callbacks (revents : BitVec 32) : List Frame :=
  (if hasAny revents EPOLLHUP && !hasAny revents EPOLLIN then [.hup] else []) ++
  (if hasAny revents EPOLLERR then [.error] else []) ++
  (if hasAny revents (EPOLLIN ||| EPOLLPRI ||| EPOLLRDHUP) then [.read] else []) ++
  (if hasAny revents EPOLLOUT then [.write] else [])

end ConnLoop
end NewMuduo
