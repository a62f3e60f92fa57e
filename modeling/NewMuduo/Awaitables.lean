import NewMuduo.CoroTcpConnection
import Mathlib.Logic.Function.Basic

namespace NewMuduo

inductive AsyncOp where
  | read
  | write
  deriving DecidableEq, Repr

-- coro/Awaitables.h: AsyncRead and AsyncWrite, which differ in the system call
-- and in the event they wait for. bytes is bytesRead_ or bytesWritten_. The
-- frames, eventHandling and torn are those of its Channel as for a connection.
structure Awaitable where
  op : AsyncOp
  fd : Nat
  count : Nat
  bytes : Int
  channel : Option Channel
  frames : List Frame
  eventHandling : Bool
  torn : Bool
  destroyed : Bool
  deriving DecidableEq, Repr

namespace Awaitable

def new (op : AsyncOp) (fd count : Nat) : Awaitable := ⟨op,fd,count,0,none,[],false,false,false⟩

-- channel_ takes another value, so ~Channel runs for the one it had.
def resetChannel (a : Awaitable) (channel : Option Channel) : Awaitable :=
  let tears := a.eventHandling && a.channel.isSome
  {a with
    channel := channel
    torn := a.torn || tears
    frames := if tears then [] else a.frames
    eventHandling := a.eventHandling && !tears}

def interest : AsyncOp → Channel.Op
  | .read => .enableReading
  | .write => .enableWriting

def await_suspend (a : Awaitable) : Awaitable := a.resetChannel (some ((Channel.new a.fd).request (interest a.op)))

def returned : WriteResult → Int
  | .wrote n => n
  | .error _ => -1

-- Both callbacks after their system call; handle_.resume() runs user code.
def transferred (a : Awaitable) (result : WriteResult) : Awaitable :=
  let a := {a with bytes := returned result}
  if result = .error .EWOULDBLOCK then a
  else {a with
    channel := a.channel.map fun c => {c.request .disableAll with addedToLoop := false}
    frames := .userCode :: a.frames}

def onReadable (a : Awaitable) (result : WriteResult) : Awaitable := a.transferred result
def onWritable (a : Awaitable) (result : WriteResult) : Awaitable := a.transferred result

-- AsyncRead sets readCallback_ only, AsyncWrite writeCallback_ only.
def hasCallback (a : Awaitable) : Frame → Bool
  | .read => a.op == .read
  | .write => a.op == .write
  | _ => false

def pop (a : Awaitable) (rest : List Frame) : Awaitable := {a with frames := rest}

def runFrame (a : Awaitable) (answer : Option WriteResult) : Option Awaitable :=
  match a.frames,answer with
  | frame :: rest,none => if a.hasCallback frame then none else some (a.pop rest)
  | frame :: rest,some result =>
    if a.hasCallback frame ∧ result.Fits a.count then
      match a.op with
      | .read => some ((a.pop rest).onReadable result)
      | .write => some ((a.pop rest).onWritable result)
    else none
  | [],_ => none

def userRuns (a : Awaitable) : Bool := !a.eventHandling || a.frames.head? == some .userCode

inductive Label where
  | await_suspend
  | event (revents : BitVec 32)
  | frame (answer : Option WriteResult)
  | handled
  | destroy
  deriving DecidableEq, Repr

def Label.byUser : Label → Bool
  | .await_suspend | .destroy => true
  | _ => false

def perform (a : Awaitable) : Label → Option Awaitable
  | .await_suspend => some a.await_suspend
  | .event revents =>
    if a.eventHandling = false ∧ a.channel.any (·.addedToLoop) then
      some {a with eventHandling := true,frames := ConnLoop.callbacks revents}
    else none
  | .frame answer => if a.eventHandling then a.runFrame answer else none
  | .handled => if a.eventHandling ∧ a.frames = [] then some {a with eventHandling := false} else none
  | .destroy => some {a.resetChannel none with destroyed := true}

def next (a : Awaitable) (label : Label) : Option Awaitable :=
  if a.destroyed = false ∧ (label.byUser → a.userRuns) then a.perform label else none

end Awaitable

-- The objects of one loop thread that own a Channel and are entered by it.
inductive CoroObject where
  | conn (w : CoroConn)
  | await (a : Awaitable)

inductive CoroLabel where
  | conn (label : CoroConn.Label)
  | await (label : Awaitable.Label)
  deriving DecidableEq, Repr

namespace CoroObject

def next : CoroObject → CoroLabel → Option CoroObject
  | .conn w,.conn label => (w.next label).map .conn
  | .await a,.await label => (a.next label).map .await
  | _,_ => none

def eventHandling : CoroObject → Bool
  | .conn w => w.eventHandling
  | .await a => a.eventHandling

def torn : CoroObject → Bool
  | .conn w => w.torn
  | .await a => a.torn

def userRuns : CoroObject → Bool
  | .conn w => w.userRuns
  | .await a => a.userRuns

end CoroObject

namespace CoroLabel

def byUser : CoroLabel → Bool
  | .conn label => label.byUser
  | .await label => label.byUser

def isEvent : CoroLabel → Bool
  | .conn (.event _) | .await (.event _) => true
  | _ => false

end CoroLabel

-- The loop thread: at most one handleEventWithGuard runs at a time.
structure CoroLoop where
  objects : Nat → CoroObject
  active : Option Nat

namespace CoroLoop

-- An event is handled after the one before, user code runs in between and in
-- the callbacks, and everything else is the event that is being handled.
def admits (s : CoroLoop) (key : Nat) (label : CoroLabel) : Bool :=
  match s.active with
  | none => label.isEvent || label.byUser
  | some running =>
    if label.byUser then (s.objects running).userRuns else !label.isEvent && running == key

def next (s : CoroLoop) (label : Nat × CoroLabel) : Option CoroLoop :=
  if s.admits label.1 label.2 then
    ((s.objects label.1).next label.2).map fun object =>
      ⟨Function.update s.objects label.1 object,
        if object.eventHandling then some label.1 else if s.active = some label.1 then none else s.active⟩
  else none

-- Each object as it is before its first step: a connection in start() or an
-- awaitable that has been constructed.
def machine : Machine CoroLoop (Nat × CoroLabel) where
  start s := s.active = none ∧ ∀ key,
    (∃ fd dataCallback, s.objects key = .conn (.started fd dataCallback)) ∨
    ∃ op fd count, s.objects key = .await (.new op fd count)
  next := next

theorem next_parts {s after : CoroLoop} {label : Nat × CoroLabel} (taken : s.next label = some after) :
    ∃ object, (s.objects label.1).next label.2 = some object ∧ after.objects = Function.update s.objects label.1 object := by
  unfold next at taken
  split at taken
  · obtain ⟨object,moved,same⟩ := Option.map_eq_some_iff.mp taken
    rw [← same]
    exact ⟨object,moved,rfl⟩
  · cases taken

end CoroLoop
end NewMuduo
