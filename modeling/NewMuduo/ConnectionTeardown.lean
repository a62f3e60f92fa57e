import NewMuduo.ConnectionReceive

namespace NewMuduo.ConnLoop

-- What the user's code on the loop thread does with a connection, here without
-- startRead and stopRead.
inductive Use where
  | send (message : List UInt8) (result : DirectResult)
  | shutdown
  | forceClose
  | forceCloseWithDelay
  | inputBuffer (op : Buffer.Op)
  deriving DecidableEq, Repr

-- A connection, the number of timers that forceCloseWithDelay has set and that
-- have not expired, and whether connectDestroyed has returned.
structure Teardown where
  loop : ConnLoop
  timers : Nat
  destroyed : Bool

namespace Teardown

def forceCloseWithDelay (s : Teardown) : Teardown :=
  if s.loop.conn.state = .kConnected ∨ s.loop.conn.state = .kDisconnecting then
    {s with loop := s.loop.setState .kDisconnecting,timers := s.timers + 1}
  else s

def perform (s : Teardown) (call : Call) : Option Teardown := (s.loop.perform call).map fun loop => {s with loop := loop}

def use (s : Teardown) : Use → Option Teardown
  | .send message result => s.perform (.send message result)
  | .shutdown => s.perform .shutdown
  | .forceClose => s.perform .forceClose
  | .forceCloseWithDelay => some s.forceCloseWithDelay
  | .inputBuffer op => s.perform (.inputBuffer op)

def useAll : Teardown → List Use → Option Teardown
  | s,[] => some s
  | s,first :: rest => (s.use first).bind (useAll · rest)

-- The whole of connectDestroyed, with what connectionCallback_ does when it is
-- called; its frames are those of ConnLoop.connectDestroyed.
def connectDestroyed (s : Teardown) (callback : List Use) : Option Teardown :=
  if s.loop.conn.state = .kConnected then do
    let s ← useAll {s with loop := s.loop.connectDestroyed} callback
    let returned ← s.loop.runFrame .none
    let removed ← returned.runFrame .none
    some {s with loop := removed,destroyed := true}
  else some {s with loop := s.loop.connectDestroyed,destroyed := true}

inductive Label where
  | use (u : Use)
  | epoll_wait (revents : BitVec 32)
  | handleEvent
  | frame (answer : Answer)
  | functor
  | timer
  | connectDestroyed (callback : List Use)
  deriving DecidableEq, Repr

-- Any event mask may come. A timer expires while no handler of the connection
-- runs, also between epoll_wait and the connection's own event. connectDestroyed
-- is run by a functor or by ~TcpServer, which may be called in user code.
def next (s : Teardown) (label : Label) : Option Teardown :=
  if s.destroyed then none
  else match label with
    | .use u => if s.loop.userRuns then s.use u else none
    | .epoll_wait revents =>
      if s.loop.frames = [] ∧ s.loop.active = none ∧ (s.loop.poller.interest s.loop.conn.channel.fd).isSome then
        some {s with loop := {s.loop with active := some revents}}
      else none
    | .handleEvent =>
      match s.loop.frames,s.loop.active with
      | [],some revents => some {s with loop := {s.loop with active := none,frames := callbacks revents}}
      | _,_ => none
    | .frame answer => (s.loop.runFrame answer).map fun loop => {s with loop := loop}
    | .functor =>
      match s.loop.frames,s.loop.active,s.loop.pendingFunctors with
      | [],none,cb :: rest => some {s with loop := {s.loop with pendingFunctors := rest}.runFunctor cb}
      | _,_,_ => none
    | .timer =>
      if s.loop.frames = [] ∧ 0 < s.timers then some {s with loop := s.loop.forceCloseInLoop,timers := s.timers - 1} else none
    | .connectDestroyed callback => if s.loop.userRuns then s.connectDestroyed callback else none

-- connectEstablished has called connectionCallback_.
def machine : Machine Teardown Label where
  start s := ∃ fd highWaterMark complete high, s = ⟨(established fd highWaterMark complete high).loop,0,false⟩
  next := next

end Teardown
end NewMuduo.ConnLoop
