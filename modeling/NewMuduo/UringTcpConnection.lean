import NewMuduo.Machine
import NewMuduo.TcpConnection

namespace NewMuduo

inductive UringState where
  | KConnecting
  | KConnected
  | KDisconnecting
  | KDisconnected
  deriving DecidableEq, Repr

def EINTR : Errno := .other 4

-- The read or send the handler awaits: what was asked for and what is missing.
inductive UringOp where
  | read (total remain : Nat)
  | send (total remain : Nat)
  deriving DecidableEq, Repr

-- What queueInLoop has put off: the two members of the connection and the empty
-- closure that only keeps it alive.
inductive UringFunctor where
  | shutdownInLoop
  | forcecloseInLoop
  | guard
  deriving DecidableEq, Repr

inductive ShutHow where
  | SHUT_WR
  | SHUT_RDWR
  deriving DecidableEq, Repr

-- io_uring/UringCoroTcpConnection.h on its loop thread. running says that the
-- handler coroutine is executing, result is what its last read or send gave it;
-- sameLoop says that the connection is on the loop of the server, mapped that it
-- is in connections_, removals how many removeConnectionInLoop that loop still
-- has to run. closes counts the calls of closeCallback_, shutdowns those of
-- ::shutdown. A call whose assert fails has no result.
structure UringTcpConnection where
  state : UringState
  functors : List UringFunctor
  running : Bool
  op : Option UringOp
  result : Int
  returned : Bool
  sameLoop : Bool
  mapped : Bool
  removals : Nat
  closes : Nat
  shutdowns : List ShutHow
  deriving DecidableEq, Repr

namespace UringTcpConnection

def queueInLoop (c : UringTcpConnection) (cb : UringFunctor) : UringTcpConnection := {c with functors := c.functors ++ [cb]}

-- runInLoop(removeConnectionInLoop) of the server's loop.
def removeConnection (c : UringTcpConnection) : UringTcpConnection :=
  if c.sameLoop then {c with mapped := false} else {c with removals := c.removals + 1}

def handleClose (c : UringTcpConnection) : UringTcpConnection :=
  if c.state = .KDisconnected then c
  else
    let c := {c with closes := c.closes + 1}.removeConnection
    {c with state := .KDisconnected}.queueInLoop .guard

def shutdown (c : UringTcpConnection) : Option UringTcpConnection :=
  if c.state = .KConnected then some ({c with state := .KDisconnecting}.queueInLoop .shutdownInLoop) else none

def forceclose (c : UringTcpConnection) : Option UringTcpConnection :=
  if c.state = .KDisconnected ∨ c.state = .KDisconnecting then some c
  else if c.state = .KConnected ∨ c.state = .KConnecting then
    some ({c with state := .KDisconnecting}.queueInLoop .forcecloseInLoop)
  else none

def runFunctor (c : UringTcpConnection) : UringFunctor → UringTcpConnection
  | .shutdownInLoop => {c with shutdowns := c.shutdowns ++ [.SHUT_WR]}
  | .forcecloseInLoop => handleClose {c with shutdowns := c.shutdowns ++ [.SHUT_RDWR]}
  | .guard => c

-- co_return of read or send: the handler goes on.
def giveBack (c : UringTcpConnection) (result : Int) : UringTcpConnection :=
  {c with op := none,result := result,running := true}

def retry (errno : Errno) : Bool := errno == .EWOULDBLOCK || errno == EINTR

-- One turn of the loop in read, after its co_await.
def readCompleted (c : UringTcpConnection) (total remain : Nat) (res : Int) (errno : Errno) : UringTcpConnection :=
  if 0 < res then
    let remain := remain - res.toNat
    if remain = 0 then c.giveBack total else {c with op := some (.read total remain)}
  else if res = 0 then c.handleClose.giveBack 0
  else if retry errno then c
  else c.handleClose.giveBack res

def sendCompleted (c : UringTcpConnection) (total remain : Nat) (res : Int) (errno : Errno) : UringTcpConnection :=
  if 0 < res then
    let remain := remain - res.toNat
    if remain = 0 then c.giveBack total else {c with op := some (.send total remain)}
  else if res = 0 then c
  else if retry errno then c
  else c.handleClose.giveBack res

-- The end of connectionLoop, after the handler has returned.
def connectionLoopEnds (c : UringTcpConnection) : Option UringTcpConnection :=
  let c := {c with running := false,returned := true}
  if c.state ≠ .KDisconnected then c.forceclose else some c

-- Until connectionLoop suspends for the first time; without a handler start()
-- closes the connection.
def start (c : UringTcpConnection) (handle : Bool) : Option UringTcpConnection :=
  let c := {c with state := .KConnecting}
  if !handle then c.forceclose else some {c with state := .KConnected,running := true}

-- Read and send never end without a request, so they are called for at least
-- one byte. suspend and resume stand for all else the handler awaits.
inductive Label where
  | read (len : Nat)
  | send (len : Nat)
  | completed (res : Int) (errno : Errno)
  | suspend
  | resume
  | shutdown
  | forceclose
  | ret
  | functor
  | removeConnectionInLoop
  deriving DecidableEq, Repr

def next (c : UringTcpConnection) : Label → Option UringTcpConnection
  | .read len => if c.running ∧ 0 < len then some {c with running := false,op := some (.read len len)} else none
  | .send len => if c.running ∧ 0 < len then some {c with running := false,op := some (.send len len)} else none
  | .completed res errno =>
    match c.op with
    | some (.read total remain) => if res ≤ remain then some (c.readCompleted total remain res errno) else none
    | some (.send total remain) => if res ≤ remain then some (c.sendCompleted total remain res errno) else none
    | none => none
  | .suspend => if c.running then some {c with running := false} else none
  | .resume =>
    if c.running = false ∧ c.op = none ∧ c.returned = false then some {c with running := true} else none
  | .shutdown => if c.running then c.shutdown else none
  | .forceclose => if c.running then c.forceclose else none
  | .ret => if c.running then c.connectionLoopEnds else none
  | .functor =>
    match c.running,c.functors with
    | false,cb :: rest => some ({c with functors := rest}.runFunctor cb)
    | _,_ => none
  | .removeConnectionInLoop =>
    if 0 < c.removals then some {c with removals := c.removals - 1,mapped := false} else none

-- UringTcpServer::onNewConnection, before start() runs on the connection's loop.
def construct (sameLoop : Bool) : UringTcpConnection :=
  ⟨.KDisconnected,[],false,none,0,false,sameLoop,true,0,0,[]⟩

def machine : Machine UringTcpConnection Label where
  start c := ∃ sameLoop, (construct sameLoop).start true = some c
  next := next

end UringTcpConnection
end NewMuduo
