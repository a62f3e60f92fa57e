import NewMuduo.ConnectionLoop

namespace NewMuduo

-- coro/CoroChannel.h. Nothing calls waitReadable or waitWritable, so its two
-- waiters stay empty and an event goes to the callback of the owner.
structure CoroChannel where
  fd : Nat
  reading : Bool
  writing : Bool
  attached : Bool
  channel : Option Channel
  deriving DecidableEq, Repr

namespace CoroChannel

def new (fd : Nat) : CoroChannel := ⟨fd,false,false,false,none⟩

def attach (c : CoroChannel) : CoroChannel :=
  if !c.attached then {c with channel := some (.new c.fd),attached := true} else c

def request (c : CoroChannel) (op : Channel.Op) : CoroChannel := {c with channel := c.channel.map (·.request op)}

def enableReading (c : CoroChannel) : CoroChannel := {c.attach with reading := true}.request .enableReading
def enableWriting (c : CoroChannel) : CoroChannel := {c.attach with writing := true}.request .enableWriting
def disableWriting (c : CoroChannel) : CoroChannel := {c with writing := false}.request .disableWriting
def disableAll (c : CoroChannel) : CoroChannel := {c with reading := false,writing := false}.request .disableAll

-- channel_.reset() is where ~Channel runs.
def remove (c : CoroChannel) : CoroChannel :=
  let c := c.disableAll
  if c.channel.isSome then {c with channel := none,attached := false} else c

-- The poller knows the Channel.
def polled (c : CoroChannel) : Bool := c.channel.any (·.addedToLoop)

end CoroChannel

-- coro/CoroTcpConnection.h. A callback member is present or not; the server
-- always sets closeCallback_.
structure CoroTcpConnection where
  connected : Bool
  writing : Bool
  channel : CoroChannel
  inputBuffer : Buffer
  outputBuffer : Buffer
  dataCallback : Bool
  deriving DecidableEq, Repr

def CoroTcpConnection.new (fd : Nat) (dataCallback : Bool) : CoroTcpConnection :=
  ⟨false,false,.new fd,.new kInitialSize,.new kInitialSize,dataCallback⟩

-- A connection on its loop thread: the object, the frames and eventHandling_ of
-- the handleEventWithGuard that runs for its Channel, its entry in connections_
-- and the shared_ptrs user code holds. The rest records what happened: torn when
-- ~Channel ran with eventHandling_ set, the messages accepted, the bytes the
-- kernel took, both at each SHUT_WR and the number of calls of closeCallback_.
structure CoroConn where
  conn : CoroTcpConnection
  frames : List Frame
  eventHandling : Bool
  mapped : Bool
  copies : Nat
  torn : Bool
  destroyed : Bool
  eof : Bool
  finished : Bool
  sent : List (List UInt8)
  taken : List UInt8
  shutdowns : List (List UInt8 × List UInt8)
  closes : Nat
  deriving DecidableEq, Repr

namespace CoroConn

-- The argument of a running dataCallback_ is an owner, too.
def owned (w : CoroConn) : Bool := w.mapped || 0 < w.copies || w.frames.contains .userCode

-- channel_->remove(). What is left of a handleEventWithGuard whose Channel is
-- gone would work on a destroyed object: the call ends here.
def removeChannel (w : CoroConn) : CoroConn :=
  let tears := w.eventHandling && w.conn.channel.channel.isSome
  {w with
    conn := {w.conn with channel := w.conn.channel.remove}
    torn := w.torn || tears
    frames := if tears then [] else w.frames
    eventHandling := w.eventHandling && !tears}

-- A shared_ptr went away: ~CoroTcpConnection runs when it was the last one.
def release (w : CoroConn) : CoroConn := if w.owned then w else {w.removeChannel with destroyed := true}

-- closeCallback_(shared_from_this()): removeConnection erases the entry, then the argument dies.
def closeCallback (w : CoroConn) : CoroConn := {w with closes := w.closes + 1,mapped := false}.release

def handleClose (w : CoroConn) : CoroConn :=
  if w.conn.connected then
    {w with conn := {w.conn with connected := false,channel := w.conn.channel.disableAll}}.removeChannel.closeCallback
  else w

theorem handleClose_closed {w : CoroConn} (closed : w.conn.connected = false) : w.handleClose = w := by
  unfold handleClose
  rw [closed]
  rfl

def bufBytes : Nat := 65536

def call (w : CoroConn) (frame : Frame) : CoroConn := {w with frames := frame :: w.frames}

def onReadable (w : CoroConn) : Buffer.ReadResult → Option CoroConn
  | .bytes [] => some {w with eof := true}.handleClose
  | .bytes data => do
    let inputBuffer ← w.conn.inputBuffer.append data
    let w := {w with conn := {w.conn with inputBuffer := inputBuffer}}
    some (if w.conn.dataCallback then w.call .userCode else w)
  | .error => some w

def disableWriting (w : CoroConn) : CoroConn :=
  {w with conn := {w.conn with channel := w.conn.channel.disableWriting,writing := false}}

def onWritable (w : CoroConn) (result : WriteResult) : Option CoroConn :=
  if w.conn.outputBuffer.readableBytes = 0 then some w.disableWriting
  else match result with
    | .wrote n =>
      if 0 < n then do
        let outputBuffer ← w.conn.outputBuffer.retrieve n
        let w := {w with
          taken := w.taken ++ w.conn.outputBuffer.readable.take n
          conn := {w.conn with outputBuffer := outputBuffer}}
        some (if w.conn.outputBuffer.readableBytes = 0 then w.disableWriting else w)
      else some w
    | .error errno => some (if errno ≠ .EWOULDBLOCK then w.handleClose else w)

def send (w : CoroConn) (data : List UInt8) : Option CoroConn :=
  if !w.conn.connected then some w
  else do
    let outputBuffer ← w.conn.outputBuffer.append data
    let w := {w with conn := {w.conn with outputBuffer := outputBuffer},sent := w.sent ++ [data]}
    some (if !w.conn.writing then
      {w with conn := {w.conn with writing := true,channel := w.conn.channel.enableWriting}} else w)

def shutdown (w : CoroConn) : CoroConn :=
  {w with conn := {w.conn with connected := false},shutdowns := w.shutdowns ++ [(w.taken,w.sent.flatten)]}

-- connectionLoop after handler_ (at once when there is none). An exception of
-- the handler ends the coroutine in unhandled_exception.
def connectionLoop (w : CoroConn) (threw : Bool) : CoroConn :=
  let w := {w with finished := true}
  if threw then w else {w with conn := {w.conn with connected := false}}.closeCallback

def pop (w : CoroConn) (rest : List Frame) : CoroConn := {w with frames := rest}

-- No errorCallback_ is ever set.
def runFrame (w : CoroConn) (answer : ConnLoop.Answer) : Option CoroConn :=
  match w.frames,answer with
  | .hup :: rest,.none => some (w.pop rest).handleClose
  | .error :: rest,.none => some (w.pop rest)
  | .read :: rest,.read (.bytes data) => if data.length ≤ bufBytes then (w.pop rest).onReadable (.bytes data) else none
  | .read :: rest,.read .error => (w.pop rest).onReadable .error
  | .write :: rest,.write result =>
    if WriteResult.Fits w.conn.outputBuffer.readableBytes result then (w.pop rest).onWritable result else none
  | .userCode :: rest,.none => some (w.pop rest).release
  | _,_ => none

-- User code runs in dataCallback_ and, when no event of this connection is
-- handled, in any other coroutine, handler or functor of the loop.
def userRuns (w : CoroConn) : Bool := !w.eventHandling || w.frames.head? == some .userCode

inductive Label where
  | event (revents : BitVec 32)
  | frame (answer : ConnLoop.Answer)
  | handled
  | send (data : List UInt8)
  | shutdown
  | connectionLoop (threw : Bool)
  | copy
  | drop
  deriving DecidableEq, Repr

def Label.byUser : Label → Bool
  | .event _ | .frame _ | .handled => false
  | _ => true

def perform (w : CoroConn) : Label → Option CoroConn
  | .event revents =>
    if w.eventHandling = false ∧ w.conn.channel.polled then
      some {w with eventHandling := true,frames := ConnLoop.callbacks revents}
    else none
  | .frame answer => w.runFrame answer
  | .handled => if w.eventHandling ∧ w.frames = [] then some {w with eventHandling := false} else none
  | .send data => w.send data
  | .shutdown => some w.shutdown
  | .connectionLoop threw => if w.finished then none else some (w.connectionLoop threw)
  | .copy => if 0 < w.copies ∨ .userCode ∈ w.frames then some {w with copies := w.copies + 1} else none
  | .drop => if 0 < w.copies then some {w with copies := w.copies - 1}.release else none

def next (w : CoroConn) (label : Label) : Option CoroConn :=
  if w.destroyed = false ∧ (label.byUser → w.userRuns) then w.perform label else none

-- CoroTcpServer::onAccept has entered the connection in connections_ and holds
-- it in a local variable; start() is about to resume connectionTask_.
def started (fd : Nat) (dataCallback : Bool) : CoroConn :=
  let conn := CoroTcpConnection.new fd dataCallback
  ⟨{conn with connected := true,channel := conn.channel.enableReading},
    [],false,true,1,false,false,false,false,[],[],[],0⟩

def machine : Machine CoroConn Label where
  start w := ∃ fd dataCallback, w = started fd dataCallback
  next := next

-- Each label with what it needs and what it leaves.
inductive Step (w : CoroConn) : Label → CoroConn → Prop where
  | event : w.eventHandling = false → w.conn.channel.polled = true →
      Step w (.event revents) {w with eventHandling := true,frames := ConnLoop.callbacks revents}
  | hup : w.frames = .hup :: rest → Step w (.frame .none) (w.pop rest).handleClose
  | error : w.frames = .error :: rest → Step w (.frame .none) (w.pop rest)
  | eof : w.frames = .read :: rest → Step w (.frame (.read (.bytes []))) {w.pop rest with eof := true}.handleClose
  | data : w.frames = .read :: rest → data ≠ [] → w.conn.inputBuffer.append data = some inputBuffer → w.conn.dataCallback = true →
      Step w (.frame (.read (.bytes data)))
        ({w.pop rest with conn := {w.conn with inputBuffer := inputBuffer}}.call .userCode)
  | unread : w.frames = .read :: rest → data ≠ [] → w.conn.inputBuffer.append data = some inputBuffer → w.conn.dataCallback = false →
      Step w (.frame (.read (.bytes data))) {w.pop rest with conn := {w.conn with inputBuffer := inputBuffer}}
  | readError : w.frames = .read :: rest → Step w (.frame (.read .error)) (w.pop rest)
  | idle : w.frames = .write :: rest → w.conn.outputBuffer.readableBytes = 0 →
      Step w (.frame (.write result)) (w.pop rest).disableWriting
  | wrote : w.frames = .write :: rest → 0 < n → n ≤ w.conn.outputBuffer.readableBytes →
      w.conn.outputBuffer.retrieve n = some outputBuffer → outputBuffer.readableBytes ≠ 0 →
      Step w (.frame (.write (.wrote n))) {w.pop rest with
        taken := w.taken ++ w.conn.outputBuffer.readable.take n
        conn := {w.conn with outputBuffer := outputBuffer}}
  | drained : w.frames = .write :: rest → 0 < n → n ≤ w.conn.outputBuffer.readableBytes →
      w.conn.outputBuffer.retrieve n = some outputBuffer → outputBuffer.readableBytes = 0 →
      Step w (.frame (.write (.wrote n))) {w.pop rest with
        taken := w.taken ++ w.conn.outputBuffer.readable.take n
        conn := {w.conn with outputBuffer := outputBuffer}}.disableWriting
  | blocked : w.frames = .write :: rest → result = .wrote 0 ∨ result = .error .EWOULDBLOCK →
      Step w (.frame (.write result)) (w.pop rest)
  | writeError : w.frames = .write :: rest → w.conn.outputBuffer.readableBytes ≠ 0 → errno ≠ .EWOULDBLOCK →
      Step w (.frame (.write (.error errno))) (w.pop rest).handleClose
  | returned : w.frames = .userCode :: rest → Step w (.frame .none) (w.pop rest).release
  | handled : w.eventHandling = true → w.frames = [] → Step w .handled {w with eventHandling := false}
  | refused : w.conn.connected = false → Step w (.send data) w
  | sent : w.conn.connected = true → w.conn.outputBuffer.append data = some outputBuffer →
      Step w (.send data) (if !w.conn.writing then
        {w with
          sent := w.sent ++ [data]
          conn := {w.conn with
            outputBuffer := outputBuffer
            writing := true
            channel := w.conn.channel.enableWriting}}
        else {w with sent := w.sent ++ [data],conn := {w.conn with outputBuffer := outputBuffer}})
  | shutdown : Step w .shutdown w.shutdown
  | connectionLoop : w.finished = false → Step w (.connectionLoop threw) (w.connectionLoop threw)
  | copy : Step w .copy {w with copies := w.copies + 1}
  | drop : 0 < w.copies → Step w .drop {w with copies := w.copies - 1}.release

section Step
variable {w after : CoroConn} {label : Label}

theorem onReadable_step (top : w.frames = .read :: rest) (taken : (w.pop rest).onReadable (.bytes data) = some after) :
    Step w (.frame (.read (.bytes data))) after := by
  cases data with
  | nil =>
    cases taken
    exact .eof top
  | cons byte more =>
    obtain ⟨inputBuffer,appended,same⟩ := Option.bind_eq_some_iff.mp taken
    cases same
    have some_data : byte :: more ≠ [] := List.cons_ne_nil _ _
    split
    · rename_i called
      exact .data top some_data appended called
    · rename_i absent
      exact .unread top some_data appended (Bool.not_eq_true _ ▸ absent)

theorem onWritable_step (top : w.frames = .write :: rest) (fits : result.Fits w.conn.outputBuffer.readableBytes)
    (taken : (w.pop rest).onWritable result = some after) : Step w (.frame (.write result)) after := by
  unfold onWritable at taken
  split at taken
  · rename_i empty
    cases taken
    exact .idle top empty
  · rename_i backlog
    cases result with
    | wrote n =>
      dsimp only at taken
      split at taken
      · rename_i some_bytes
        obtain ⟨outputBuffer,retrieved,same⟩ := Option.bind_eq_some_iff.mp taken
        cases same
        split
        · rename_i left
          exact .drained top some_bytes fits retrieved left
        · rename_i left
          exact .wrote top some_bytes fits retrieved left
      · rename_i none
        cases taken
        have zero : n = 0 := by omega
        exact .blocked top (.inl (congrArg _ zero))
    | error errno =>
      cases taken
      split
      · rename_i fatal
        exact .writeError top backlog fatal
      · rename_i again
        exact .blocked top (.inr (congrArg _ (not_not.mp again)))

theorem runFrame_step (taken : w.runFrame answer = some after) : Step w (.frame answer) after := by
  unfold runFrame at taken
  split at taken
  · rename_i top
    cases taken
    exact .hup top
  · rename_i top
    cases taken
    exact .error top
  · rename_i top
    split at taken
    · exact onReadable_step top taken
    · cases taken
  · rename_i top
    cases taken
    exact .readError top
  · rename_i top
    split at taken
    · rename_i fits
      exact onWritable_step top fits taken
    · cases taken
  · rename_i top
    cases taken
    exact .returned top
  · cases taken

theorem send_step (taken : w.send data = some after) : Step w (.send data) after := by
  unfold send at taken
  split at taken
  · rename_i closed
    cases taken
    exact .refused (by simpa using closed)
  · rename_i live
    obtain ⟨outputBuffer,appended,same⟩ := Option.bind_eq_some_iff.mp taken
    cases same
    exact .sent (by simpa using live) appended

theorem perform_step (taken : w.perform label = some after) : Step w label after := by
  cases label with
  | event revents =>
    simp only [perform] at taken
    split at taken
    · rename_i able
      cases taken
      exact .event able.1 able.2
    · cases taken
  | frame answer => exact runFrame_step taken
  | handled =>
    simp only [perform] at taken
    split at taken
    · rename_i able
      cases taken
      exact .handled able.1 able.2
    · cases taken
  | send data => exact send_step taken
  | shutdown => cases taken; exact .shutdown
  | connectionLoop threw =>
    simp only [perform] at taken
    split at taken
    · cases taken
    · rename_i runs
      cases taken
      exact .connectionLoop (Bool.not_eq_true _ ▸ runs)
  | copy =>
    simp only [perform] at taken
    split at taken
    · cases taken; exact .copy
    · cases taken
  | drop =>
    simp only [perform] at taken
    split at taken
    · rename_i held
      cases taken
      exact .drop held
    · cases taken

theorem next_step (taken : w.next label = some after) :
    w.destroyed = false ∧ (label.byUser = true → w.userRuns = true) ∧ Step w label after := by
  unfold next at taken
  split at taken
  · rename_i able
    exact ⟨able.1,able.2,perform_step taken⟩
  · cases taken

end Step

end CoroConn
end NewMuduo
