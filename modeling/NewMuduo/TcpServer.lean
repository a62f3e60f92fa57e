import NewMuduo.Machine
import NewMuduo.TcpConnection
import Mathlib.Logic.Function.Basic
import Mathlib.Algebra.Order.Ring.Int

namespace NewMuduo

-- detail::EventLoopThreadPool after start; next_ indexes loops_.
structure EventLoopThreadPool (Loop : Type u) where
  baseLoop : Loop
  loops : List Loop
  next : Nat
  bounded : loops = [] ∨ next < loops.length

namespace EventLoopThreadPool
variable {Loop : Type u}

def start (baseLoop : Loop) (loops : List Loop) : EventLoopThreadPool Loop :=
  ⟨baseLoop,loops,0,loops.eq_nil_or_concat.imp_right fun ⟨_,_,same⟩ => by simp [same]⟩

def getNextLoop (pool : EventLoopThreadPool Loop) : Loop × EventLoopThreadPool Loop :=
  if h : pool.loops = [] then (pool.baseLoop,pool)
  else
    let loop := pool.loops.get ⟨pool.next,pool.bounded.resolve_left h⟩
    if below : pool.next + 1 < pool.loops.length then (loop,{pool with next := pool.next + 1,bounded := .inr below})
    else (loop,{pool with next := 0,bounded := .inr (List.length_pos_iff.mpr h)})

end EventLoopThreadPool

-- The closures that the server and its connections pass between loops.
inductive Task where
  | connectEstablished (c : Nat)
  | removeConnectionInLoop (c : Nat)
  | connectDestroyed (c : Nat)
  deriving DecidableEq, Repr

def Task.conn : Task → Nat
  | .connectEstablished c | .removeConnectionInLoop c | .connectDestroyed c => c

-- pendingFunctors_ of a loop and what doPendingFunctors has swapped out of it
-- and not run yet.
structure Tasks where
  functors : List Task
  pendingFunctors : List Task

-- What happened to a connection; removed says what erase took out.
inductive Act where
  | established (c : Nat)
  | handled (c : Nat)
  | removed (c : Nat) (erased : Option Nat)
  | destroyed (c : Nat)
  deriving DecidableEq, Repr

def Act.conn : Act → Nat
  | .established c | .handled c | .removed c _ | .destroyed c => c

-- The TcpConnection as the server deals with it: added says that its channel
-- has been in the poller, closed that closeCallback_ has been called.
structure Conn (Loop : Type u) where
  loop : Loop
  name : String
  state : StateE
  added : Bool
  closed : Bool

-- net/TcpServer.h and the queues of all loops. A TcpConnectionPtr is the number
-- of connections accepted before it; fault says that an assert failed.
structure TcpServer (Loop : Type u) where
  loop : Loop
  name : String
  threadPool : EventLoopThreadPool Loop
  nextConnId : Int
  connections : String → Option Nat
  tasks : Loop → Tasks
  conns : Nat → Option (Conn Loop)
  accepted : Nat
  fault : Bool
  log : List Act

namespace TcpServer
variable {Loop : Type u} [DecidableEq Loop]

def deref (s : TcpServer Loop) (c : Nat) (use : Conn Loop → TcpServer Loop) : TcpServer Loop :=
  match s.conns c with
  | some conn => use conn
  | none => {s with fault := true}

def queueInLoop (s : TcpServer Loop) (loop : Loop) (task : Task) : TcpServer Loop :=
  let tasks := s.tasks loop
  {s with tasks := Function.update s.tasks loop ⟨tasks.functors,tasks.pendingFunctors ++ [task]⟩}

-- TcpConnection::connectEstablished up to the user's callback.
def connectEstablished (s : TcpServer Loop) (c : Nat) : TcpServer Loop :=
  s.deref c fun conn => {s with
    conns := Function.update s.conns c (some {conn with state := .kConnected,added := true})
    fault := s.fault || conn.state != .kConnecting
    log := s.log ++ [.established c]}

-- What disableAll and remove do is the poller's.
def connectDestroyed (s : TcpServer Loop) (c : Nat) : TcpServer Loop :=
  s.deref c fun conn => {s with
    conns := Function.update s.conns c
      (some {conn with state := if conn.state = .kConnected then .kDisconnected else conn.state})
    log := s.log ++ [.destroyed c]}

def removeConnectionInLoop (s : TcpServer Loop) (c : Nat) : TcpServer Loop :=
  s.deref c fun conn =>
    let erased := s.connections conn.name
    let n := if erased.isSome then 1 else 0
    {s with
      connections := Function.update s.connections conn.name none
      fault := s.fault || n != 1
      log := s.log ++ [Act.removed c erased]}.queueInLoop conn.loop (.connectDestroyed c)

def perform (s : TcpServer Loop) : Task → TcpServer Loop
  | .connectEstablished c => s.connectEstablished c
  | .removeConnectionInLoop c => s.removeConnectionInLoop c
  | .connectDestroyed c => s.connectDestroyed c

-- runInLoop of a loop, called on the thread of the loop here.
def runInLoop (s : TcpServer Loop) (here loop : Loop) (task : Task) : TcpServer Loop :=
  if here = loop then s.perform task else s.queueInLoop loop task

def connName (name : String) (id : Int) : String := name ++ ("#" ++ toString id)

-- nextConnId_ is an int.
def newConnection (s : TcpServer Loop) : TcpServer Loop :=
  let connName := connName s.name s.nextConnId
  let (ioLoop,threadPool) := s.threadPool.getNextLoop
  let conn := s.accepted
  {s with
    nextConnId := (s.nextConnId + 1).bmod (2 ^ 32)
    threadPool := threadPool
    conns := Function.update s.conns conn (some ⟨ioLoop,connName,.kConnecting,false,false⟩)
    accepted := s.accepted + 1
    connections := Function.update s.connections connName (some conn)}.runInLoop s.loop ioLoop (.connectEstablished conn)

def removeConnection (s : TcpServer Loop) (here : Loop) (c : Nat) : TcpServer Loop :=
  s.runInLoop here s.loop (.removeConnectionInLoop c)

-- TcpConnection::handleClose, with the closeCallback_ that newConnection sets.
def handleClose (s : TcpServer Loop) (c : Nat) : TcpServer Loop :=
  s.deref c fun conn => {s with
    conns := Function.update s.conns c (some {conn with state := .kDisconnected,closed := true})
    fault := s.fault || !(conn.state == StateE.kConnected || conn.state == StateE.kDisconnecting)}.removeConnection conn.loop c

-- shutdown and forceClose as far as state_ goes; the forceCloseInLoop that
-- follows is a handleClose.
def shutdown (s : TcpServer Loop) (c : Nat) : TcpServer Loop :=
  s.deref c fun conn => {s with
    conns := Function.update s.conns c
      (some {conn with state := if conn.state = .kConnected then .kDisconnecting else conn.state})}

-- doPendingFunctors, cut at the functors it runs.
def swapFunctors (s : TcpServer Loop) (loop : Loop) : TcpServer Loop :=
  {s with tasks := Function.update s.tasks loop ⟨(s.tasks loop).pendingFunctors,[]⟩}

def runFunctor (s : TcpServer Loop) (loop : Loop) : TcpServer Loop :=
  match s.tasks loop with
  | ⟨task :: rest,pendingFunctors⟩ => {s with tasks := Function.update s.tasks loop ⟨rest,pendingFunctors⟩}.perform task
  | ⟨[],_⟩ => s

inductive Label (Loop : Type u) where
  | newConnection
  | handleEvent (c : Nat)
  | handleClose (c : Nat)
  | shutdown (c : Nat)
  | swap (loop : Loop)
  | runFunctor (loop : Loop)
  deriving DecidableEq, Repr

-- The poller reports a channel once it has been added. closeCallback_ is called
-- once at most.
def allowed (s : TcpServer Loop) : Label Loop → Bool
  | .newConnection => true
  | .handleEvent c => (s.conns c).any (·.added)
  | .handleClose c => (s.conns c).any fun conn => conn.added && !conn.closed
  | .shutdown c => (s.conns c).isSome
  | .swap loop => (s.tasks loop).functors.isEmpty
  | .runFunctor loop => !(s.tasks loop).functors.isEmpty

def apply (s : TcpServer Loop) : Label Loop → TcpServer Loop
  | .newConnection => s.newConnection
  | .handleEvent c => {s with log := s.log ++ [.handled c]}
  | .handleClose c => s.handleClose c
  | .shutdown c => s.shutdown c
  | .swap loop => s.swapFunctors loop
  | .runFunctor loop => s.runFunctor loop

def new (loop : Loop) (name : String) (loops : List Loop) : TcpServer Loop :=
  ⟨loop,name,.start loop loops,1,fun _ => none,fun _ => ⟨[],[]⟩,fun _ => none,0,false,[]⟩

def machine : Machine (TcpServer Loop) (Label Loop) :=
  .guarded (fun s => ∃ loop name loops, s = new loop name loops) (fun s label => s.allowed label = true) apply

end TcpServer
end NewMuduo
