import NewMuduo.ServerConnections

namespace NewMuduo

namespace TcpServer
variable {Loop : Type u} [DecidableEq Loop] {s : TcpServer Loop} {c : Nat}

def loopOf (s : TcpServer Loop) (c : Nat) : Option Loop := (s.conns c).map (·.loop)

def inState (s : TcpServer Loop) (c : Nat) (state : StateE) : Bool := (s.conns c).any (·.state == state)

-- What forceClose and forceCloseInLoop test.
def live (s : TcpServer Loop) (c : Nat) : Bool := s.inState c .kConnected || s.inState c .kDisconnecting

-- handleClose up to the call of closeCallback_, and the call.
def disconnect (s : TcpServer Loop) (c : Nat) : TcpServer Loop :=
  s.deref c fun conn => {s with
    conns := Function.update s.conns c (some {conn with state := .kDisconnected})
    fault := s.fault || !(conn.state == StateE.kConnected || conn.state == StateE.kDisconnecting)}

def closeCallback (s : TcpServer Loop) (c : Nat) : TcpServer Loop :=
  s.deref c fun conn => {s with
    conns := Function.update s.conns c (some {conn with closed := true})}.removeConnection conn.loop c

-- The setState of shutdown and forceClose, whatever state_ has become since
-- they tested it.
def setDisconnecting (s : TcpServer Loop) (c : Nat) : TcpServer Loop :=
  s.deref c fun conn => {s with conns := Function.update s.conns c (some {conn with state := .kDisconnecting})}

-- The entries that the loop of the destructor goes through.
def listed (s : TcpServer Loop) : List Nat :=
  (List.range s.accepted).filter fun c => (s.conns c).any fun conn => s.connections conn.name == some c

end TcpServer

-- The members that may ask the poller for something. Of send: whether bytes are
-- left to be written, and whether it queues a callback.
inductive LinkCall where
  | startRead
  | stopRead
  | send (left queued : Bool)
  deriving DecidableEq, Repr

-- The members that test state_ and then call setState(kDisconnecting).
-- forceCloseWithDelay is forceClose with a timer.
inductive Closing where
  | shutdown
  | forceClose
  deriving DecidableEq, Repr

-- What the server does not know of a connection: channel_, the entry for it in
-- the poller of its loop and reading_. forced counts the closures and timers
-- that will call forceCloseInLoop, posted has the closures with the bare this,
-- closing the calls that have passed their test. users counts the
-- TcpConnectionPtrs of the user and of queued callbacks.
structure Link where
  channel : Channel
  poller : EPollPoller Unit
  reading : Bool
  forced : Nat
  posted : List LinkCall
  closing : List Closing
  users : Nat

namespace Link

def new (fd : Nat) : Link := ⟨.new fd,.new,true,0,[],[],0⟩

def request (l : Link) (op : Channel.Op) : Link :=
  let result := l.poller.updateChannel () (l.channel.request op)
  {l with poller := result.1,channel := result.2}

def remove (l : Link) : Link :=
  let result := l.poller.remove () l.channel
  {l with poller := result.1,channel := result.2}

def registered (l : Link) : Option (Interest Unit) := l.poller.interest l.channel.fd

-- The kernel reports EPOLLERR and EPOLLHUP without being asked.
def reports (l : Link) (revents : BitVec 32) : Bool :=
  l.registered.any fun entry => revents &&& ~~~(EPOLLERR ||| EPOLLHUP) &&& ~~~entry.events == 0

def queues (l : Link) (queued : Bool) : Link := if queued then {l with users := l.users + 1} else l

def perform (l : Link) (closed : Bool) : LinkCall → Link
  | .startRead => if !l.reading || !l.channel.isReading then {l.request .enableReading with reading := true} else l
  | .stopRead => if l.reading || l.channel.isReading then {l.request .disableReading with reading := false} else l
  | .send left queued =>
    if closed then l
    else
      let l := l.queues queued
      if left && !l.channel.isWriting then l.request .enableWriting else l

-- handleWrite when it writes the last byte.
def written (l : Link) (queued : Bool) : Link :=
  if l.channel.isWriting then (l.request .disableWriting).queues queued else l

end Link

-- Where ~TcpServer is: rest has the connections that its loop has not come to,
-- below the frames of the callback that it has been called in.
inductive Destructor where
  | uncalled
  | looping (rest : List Nat) (below : List (Nat × Frame))
  | finished
  deriving DecidableEq, Repr

-- Where a loop is in its turn: in epoll_wait, at what is left of activeChannels_
-- with their revents_, or in doPendingFunctors.
inductive LoopPhase where
  | polling
  | handling (active : List (Nat × BitVec 32))
  | functors
  deriving DecidableEq, Repr

-- A server with the threads of its pool that are not joined. spent has the
-- connections that the functors captured that have run and are still in the
-- batch of their loop, frames what is left to do of the connections' code that
-- its thread is in, late the connections that the server has been used for after
-- the destructor.
structure ServerDestruction (Loop : Type u) where
  server : TcpServer Loop
  destructor : Destructor
  threads : List Loop
  links : Nat → Link
  phase : Loop → LoopPhase
  spent : Loop → List Nat
  frames : Loop → List (Nat × Frame)
  late : List Nat

namespace ServerDestruction
variable {Loop : Type u} [DecidableEq Loop] {s : ServerDestruction Loop} {c : Nat} {loop : Loop}

def below (s : ServerDestruction Loop) : List (Nat × Frame) :=
  match s.destructor with
  | .looping _ below => below
  | .uncalled | .finished => []

-- The shared_ptr in connections_, which the destructor resets one by one.
def mapped (s : ServerDestruction Loop) (c : Nat) : Bool :=
  match s.destructor with
  | .uncalled => (s.server.conns c).any fun conn => s.server.connections conn.name == some c
  | .looping rest _ => rest.contains c
  | .finished => false

-- The closures that capture it, and the guards and arguments on the stacks.
def carried (s : ServerDestruction Loop) (c : Nat) (loop : Loop) : Bool :=
  ((s.server.waiting loop ++ s.server.waiting s.server.loop).map Task.conn ++ s.spent loop ++ s.spent s.server.loop ++
    (s.frames loop ++ s.below).map Prod.fst).contains c

-- Some TcpConnectionPtr is left. With the last one the Socket is closed, and
-- with it the entry in the poller goes.
def holds (s : ServerDestruction Loop) (c : Nat) : Bool :=
  s.mapped c || decide (0 < (s.links c).forced) || decide (0 < (s.links c).users) || (s.server.loopOf c).any (s.carried c)

-- The destructor has the thread of the base loop, but what it calls runs there;
-- a joined thread has ended.
def runs (s : ServerDestruction Loop) (loop : Loop) : Bool := decide (loop = s.server.loop) || s.threads.contains loop

def idle (s : ServerDestruction Loop) (loop : Loop) : Bool :=
  s.runs loop && (s.frames loop).isEmpty && (decide (loop ≠ s.server.loop) || !(s.destructor matches .looping ..))

-- An event of one of the loop's connections that epoll_wait can return.
def reports (s : ServerDestruction Loop) (loop : Loop) (event : Nat × BitVec 32) : Bool :=
  s.server.loopOf event.1 == some loop && s.holds event.1 && (s.links event.1).reports event.2

-- The user's code runs on the thread: in a callback of a connection or in
-- something else that the loop calls.
def inUser (s : ServerDestruction Loop) (loop : Loop) : Bool :=
  s.idle loop || (s.frames loop).head?.any fun entry => entry.2 == .userCode

def setLink (s : ServerDestruction Loop) (c : Nat) (change : Link → Link) : ServerDestruction Loop :=
  {s with links := Function.update s.links c (change (s.links c))}

def call (s : ServerDestruction Loop) (loop : Loop) (c : Nat) (frames : List Frame) : ServerDestruction Loop :=
  {s with frames := Function.update s.frames loop (frames.map (Prod.mk c) ++ s.frames loop)}

-- What late is after a step that uses the server for c.
def used (s : ServerDestruction Loop) (c : Nat) : List Nat := if s.destructor = .finished then s.late ++ [c] else s.late

def connectEstablished (s : ServerDestruction Loop) (here : Loop) (c : Nat) : ServerDestruction Loop :=
  ({s with server := s.server.connectEstablished c}.setLink c (·.request .enableReading)).call here c [.userCode]

def connectDestroyed (s : ServerDestruction Loop) (here : Loop) (c : Nat) : ServerDestruction Loop :=
  let after := {s with server := s.server.connectDestroyed c}
  if s.server.inState c .kConnected then (after.setLink c (·.request .disableAll)).call here c [.userCode,.remove]
  else after.setLink c .remove

def handleClose (s : ServerDestruction Loop) (here : Loop) (c : Nat) : ServerDestruction Loop :=
  ({s with server := s.server.disconnect c}.setLink c (·.request .disableAll)).call here c [.userCode,.closeCallback]

def perform (s : ServerDestruction Loop) (here : Loop) : Task → ServerDestruction Loop
  | .connectEstablished c => s.connectEstablished here c
  | .removeConnectionInLoop c => {s with server := s.server.removeConnectionInLoop c,late := s.used c}
  | .connectDestroyed c => s.connectDestroyed here c

-- A functor that runs has left the queue, but not the batch.
def popFunctor (s : ServerDestruction Loop) (loop : Loop) (task : Task) (left : Tasks) : ServerDestruction Loop :=
  {s with
    server := {s.server with tasks := Function.update s.server.tasks loop left}
    spent := Function.update s.spent loop (task.conn :: s.spent loop)}

def runFunctor (s : ServerDestruction Loop) (loop : Loop) : ServerDestruction Loop :=
  match s.server.tasks loop with
  | ⟨task :: rest,pendingFunctors⟩ => (s.popFunctor loop task ⟨rest,pendingFunctors⟩).perform loop task
  | ⟨[],_⟩ => s

-- The fd of a connection is its number.
def newConnection (s : ServerDestruction Loop) : ServerDestruction Loop :=
  let c := s.server.accepted
  let after := {s with server := s.server.newConnection,links := Function.update s.links c (.new c)}
  if after.server.loopOf c = some s.server.loop then
    (after.setLink c (·.request .enableReading)).call s.server.loop c [.userCode]
  else after

-- One turn of the destructor's loop.
def destroyConnection (s : ServerDestruction Loop) (c : Nat) : ServerDestruction Loop :=
  match s.server.loopOf c with
  | some loop =>
    if loop = s.server.loop then s.connectDestroyed loop c
    else {s with server := s.server.queueInLoop loop (.connectDestroyed c)}
  | none => s

-- What handleRead and handleWrite find.
inductive Answer where
  | received
  | endOfFile
  | emptied (queued : Bool)
  | other
  deriving DecidableEq, Repr

def runFrame (s : ServerDestruction Loop) (loop : Loop) (answer : Answer) : ServerDestruction Loop :=
  match s.frames loop with
  | [] => s
  | (c,frame) :: rest =>
    let s := {s with frames := Function.update s.frames loop rest}
    match frame,answer with
    | .hup,_ => s.handleClose loop c
    | .read,.received => s.call loop c [.userCode]
    | .read,.endOfFile => s.handleClose loop c
    | .write,.emptied queued => s.setLink c (·.written queued)
    | .closeCallback,_ => {s with server := s.server.closeCallback c,late := s.used c}
    | .remove,_ => s.setLink c .remove
    | .error,_ | .userCode,_ | .read,_ | .write,_ => s

-- Channel::handleEvent of the next channel; nothing comes of it when the tie is
-- gone.
def handleEvent (s : ServerDestruction Loop) (loop : Loop) : ServerDestruction Loop :=
  match s.phase loop with
  | .handling ((c,revents) :: rest) =>
    let after := {s with phase := Function.update s.phase loop (.handling rest)}
    if s.holds c then after.call loop c (ConnLoop.callbacks revents) else after
  | .handling [] | .polling | .functors => s

def forceCloseInLoop (s : ServerDestruction Loop) (c : Nat) : ServerDestruction Loop :=
  let after := s.setLink c fun l => {l with forced := l.forced - 1}
  match s.server.loopOf c with
  | some loop => if s.server.live c then after.handleClose loop c else after
  | none => after

-- A closure with the bare this. Where the connection is gone it runs on freed
-- memory; here it does nothing then.
def runPosted (s : ServerDestruction Loop) (c : Nat) : ServerDestruction Loop :=
  match (s.links c).posted with
  | [] => s
  | member :: rest =>
    let after := s.setLink c fun l => {l with posted := rest}
    if s.holds c then after.setLink c (·.perform (s.server.inState c .kDisconnected) member) else after

def setClosing (s : ServerDestruction Loop) (c : Nat) (how : Closing) : ServerDestruction Loop :=
  {s with server := s.server.setDisconnecting c}.setLink c fun l =>
    {l with closing := l.closing.erase how,forced := if how = Closing.forceClose then l.forced + 1 else l.forced}

inductive Label (Loop : Type u) where
  | newConnection
  | poll (loop : Loop) (events : List (Nat × BitVec 32))
  | handleEvent (loop : Loop)
  | runFrame (loop : Loop) (answer : Answer)
  | forceCloseInLoop (c : Nat)
  | runPosted (c : Nat)
  | take (c : Nat)
  | drop (c : Nat)
  | passes (c : Nat) (how : Closing)
  | setClosing (c : Nat) (how : Closing)
  | call (c : Nat) (member : LinkCall)
  | post (c : Nat) (member : LinkCall)
  | swap (loop : Loop)
  | runFunctor (loop : Loop)
  | clear (loop : Loop)
  | destroy
  | destroyConnection (c : Nat)
  | join (loop : Loop)
  | finish
  deriving DecidableEq, Repr

-- The test of state_ in send, shutdown and forceClose.
def passes (s : ServerDestruction Loop) (c : Nat) : Closing → Bool
  | .shutdown => s.server.inState c .kConnected
  | .forceClose => s.server.live c

def calls (s : ServerDestruction Loop) (c : Nat) : LinkCall → Bool
  | .send _ _ => s.server.inState c .kConnected
  | .startRead | .stopRead => true

-- The destructor may be called by any of the user's code on the base loop, and
-- the entries of connections_ come in any order. The closures that are counted
-- apart from the server's run in any turn of their loop.
def allowed (s : ServerDestruction Loop) : Label Loop → Bool
  | .newConnection => s.destructor == .uncalled && s.idle s.server.loop && (s.phase s.server.loop matches .handling _)
  | .poll loop events =>
    s.idle loop && s.phase loop == .polling && decide (events.map Prod.fst).Nodup && events.all (s.reports loop)
  | .handleEvent loop => s.idle loop && (s.phase loop matches .handling (_ :: _))
  | .runFrame loop _ => s.runs loop && !(s.frames loop).isEmpty
  | .forceCloseInLoop c => (s.server.loopOf c).any s.idle && decide (0 < (s.links c).forced)
  | .runPosted c => (s.server.loopOf c).any s.idle && !(s.links c).posted.isEmpty
  | .take c => decide (0 < (s.links c).users) ||
    (s.server.loopOf c).any fun loop => (s.frames loop).head? == some (c,.userCode)
  | .drop c => decide (0 < (s.links c).users) && ((s.links c).closing.isEmpty || decide (1 < (s.links c).users))
  | .passes c how => decide (0 < (s.links c).users) && s.passes c how
  | .setClosing c how => (s.links c).closing.contains how
  | .call c member => decide (0 < (s.links c).users) && (s.server.loopOf c).any s.inUser && s.calls c member
  | .post c member => decide (0 < (s.links c).users) && s.calls c member
  | .swap loop => s.idle loop && s.phase loop == .handling [] && (s.server.tasks loop).functors.isEmpty
  | .runFunctor loop => s.idle loop && !(s.server.tasks loop).functors.isEmpty
  | .clear loop => s.idle loop && s.phase loop == .functors && (s.server.tasks loop).functors.isEmpty
  | .destroy => s.destructor == .uncalled && s.inUser s.server.loop
  | .destroyConnection c => match s.destructor with
    | .looping rest _ => rest.contains c && (s.frames s.server.loop).isEmpty
    | .uncalled | .finished => false
  | .join loop => match s.destructor with
    | .looping [] _ => s.threads.contains loop && (s.frames loop).isEmpty && (s.frames s.server.loop).isEmpty
    | .looping (_ :: _) _ | .uncalled | .finished => false
  | .finish => match s.destructor with
    | .looping [] _ => s.threads.isEmpty && (s.frames s.server.loop).isEmpty
    | .looping (_ :: _) _ | .uncalled | .finished => false

def apply (s : ServerDestruction Loop) : Label Loop → ServerDestruction Loop
  | .newConnection => s.newConnection
  | .poll loop events => {s with phase := Function.update s.phase loop (.handling events)}
  | .handleEvent loop => s.handleEvent loop
  | .runFrame loop answer => s.runFrame loop answer
  | .forceCloseInLoop c => s.forceCloseInLoop c
  | .runPosted c => s.runPosted c
  | .take c => s.setLink c fun l => {l with users := l.users + 1}
  | .drop c => s.setLink c fun l => {l with users := l.users - 1}
  | .passes c how => s.setLink c fun l => {l with closing := how :: l.closing}
  | .setClosing c how => s.setClosing c how
  | .call c member => s.setLink c (·.perform (s.server.inState c .kDisconnected) member)
  | .post c member => s.setLink c fun l => {l with posted := l.posted ++ [member]}
  | .swap loop => {s with server := s.server.swapFunctors loop,phase := Function.update s.phase loop .functors}
  | .runFunctor loop => s.runFunctor loop
  | .clear loop => {s with
    phase := Function.update s.phase loop .polling
    spent := Function.update s.spent loop []}
  | .destroy => {s with
    destructor := .looping s.server.listed (s.frames s.server.loop)
    frames := Function.update s.frames s.server.loop []}
  | .destroyConnection c => match s.destructor with
    | .looping rest below => {s with destructor := .looping (rest.erase c) below}.destroyConnection c
    | .uncalled | .finished => s
  | .join loop => {s with threads := s.threads.filter (· ≠ loop)}
  | .finish => {s with destructor := .finished,frames := Function.update s.frames s.server.loop s.below}

def new (loop : Loop) (name : String) (loops : List Loop) : ServerDestruction Loop :=
  ⟨.new loop name loops,.uncalled,loops,.new,fun _ => .polling,fun _ => [],fun _ => [],[]⟩

def machine : Machine (ServerDestruction Loop) (Label Loop) :=
  .guarded (fun s => ∃ loop name loops, s = new loop name loops) (fun s label => s.allowed label = true) apply

-- handleClose, or a callback of handleEventWithGuard that may call it.
def closes : Frame → Bool
  | .hup | .read | .closeCallback => true
  | .error | .write | .userCode | .remove => false

-- No removeConnectionInLoop waits on the base loop, and the destructor has not
-- been called inside handleClose.
structure Tidy (s : ServerDestruction Loop) : Prop where
  removed : ∀ c, .removeConnectionInLoop c ∉ s.server.waiting s.server.loop
  outside : ∀ entry ∈ s.below, closes entry.2 = false

-- The connections of the base loop that are still there: it waits for no event
-- of them, has none to handle that may close one, and no forceCloseInLoop will.
structure Quiet (s : ServerDestruction Loop) : Prop where
  unregistered : s.phase s.server.loop = .polling → ∀ c, s.server.loopOf c = some s.server.loop → s.holds c = true →
    (s.links c).registered = none
  harmless : ∀ active, s.phase s.server.loop = .handling active → ∀ event ∈ active, s.holds event.1 = true →
    ∀ frame ∈ ConnLoop.callbacks event.2, closes frame = false
  unforced : ∀ c, s.server.loopOf c = some s.server.loop → 0 < (s.links c).forced → s.server.live c = false

-- The condition: the destructor leaves the base loop tidy, and its connections
-- are quiet whenever it is back in its own code after that.
def Tidied (s : ServerDestruction Loop) (label : Label Loop) : Prop :=
  (label = .finish → s.Tidy) ∧
    (s.destructor = .finished → s.frames s.server.loop = [] → s.Quiet)

def Unused (s : ServerDestruction Loop) : Prop := s.late = []

end ServerDestruction
end NewMuduo
