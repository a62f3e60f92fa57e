import NewMuduo.ConnectionLoop
import Mathlib.Logic.Function.Basic

namespace NewMuduo

-- Members that threads other than the loop's call; send copies the message.
inductive Method where
  | send (message : List UInt8)
  | shutdown
  | forceClose
  deriving DecidableEq, Repr

-- The closures they make for the loop.
inductive Posted where
  | sendInLoop (message : List UInt8)
  | shutdownInLoop
  | forceCloseInLoop
  deriving DecidableEq, Repr

-- Where such a thread stands: forceClose has found state_ other than
-- kConnected and compares it again, the test is passed and setState is next,
-- runInLoop or queueInLoop is next.
inductive Member where
  | idle
  | compares
  | sets (cb : Posted)
  | queues (cb : Posted)
  deriving DecidableEq, Repr

-- Whose turn it is in pendingFunctors_: the next functor of the connection's
-- own, forceCloseInLoop among them, or what a thread posted.
inductive Turn (Tid : Type) where
  | functor
  | sendInLoop (t : Tid) (message : List UInt8)
  | shutdownInLoop
  deriving DecidableEq, Repr

def Turn.isFunctor : Turn Tid → Bool
  | .functor => true
  | _ => false

def Turn.label (result : DirectResult) : Turn Tid → ConnLoop.Label
  | .functor => .functor
  | .sendInLoop _ message => .user (.sendInLoop message result)
  | .shutdownInLoop => .user .shutdownInLoop

-- The first read of state_, which may end the call.
def Method.first (state : StateE) : Method → Member
  | .send message => if state = .kConnected then .queues (.sendInLoop message) else .idle
  | .shutdown => if state = .kConnected then .sets .shutdownInLoop else .idle
  | .forceClose => if state = .kConnected then .sets .forceCloseInLoop else .compares

-- A connection on its loop with the threads that use it from outside.
structure ConnThreads (Tid : Type) where
  life : ConnLoop.Life
  turns : List (Turn Tid)
  members : Tid → Member

namespace ConnThreads
variable {Tid : Type} {s after : ConnThreads Tid} {admits : BitVec 32 → Bool}

inductive Label (Tid : Type) where
  | loop (label : ConnLoop.Label)
  | runFunctor (result : DirectResult)
  | call (t : Tid) (method : Method)
  | compare (t : Tid)
  | setState (t : Tid)
  | queueInLoop (t : Tid)
  deriving DecidableEq, Repr

-- Functors that the connection has queued stand behind the turns there are.
def waits (s : ConnThreads Tid) (turns : List (Turn Tid)) (life : ConnLoop.Life) : ConnThreads Tid :=
  let new := life.loop.pendingFunctors.length - turns.countP Turn.isFunctor
  {s with life := life,turns := turns ++ List.replicate new .functor}

def push (s : ConnThreads Tid) (t : Tid) : Posted → ConnThreads Tid
  | .sendInLoop message => {s with turns := s.turns ++ [.sendInLoop t message]}
  | .shutdownInLoop => {s with turns := s.turns ++ [.shutdownInLoop]}
  | .forceCloseInLoop => s.waits s.turns {s.life with loop := s.life.loop.queueInLoop .forceCloseInLoop}

-- The loop thread on its own; what is posted runs when its turn comes.
def own : ConnLoop.Label → Bool
  | .functor | .user (.sendInLoop _ _) | .user .shutdownInLoop => false
  | _ => true

-- A rule for what the loop thread does, as a rule for all threads.
def OnLoop (rule : ConnLoop → ConnLoop.Label → Prop) (s : ConnThreads Tid) : Label Tid → Prop
  | .loop label => rule s.life.loop label
  | .runFunctor result => ∀ turn, s.turns.head? = some turn → rule s.life.loop (turn.label result)
  | _ => True

variable [DecidableEq Tid]

def moves (s : ConnThreads Tid) (t : Tid) (member : Member) : ConnThreads Tid :=
  {s with members := Function.update s.members t member}

def next (admits : BitVec 32 → Bool) (s : ConnThreads Tid) : Label Tid → Option (ConnThreads Tid)
  | .loop label => if own label then (ConnLoop.next admits s.life label).map (s.waits s.turns) else none
  | .runFunctor result =>
    match s.turns,s.life.loop.frames,s.life.loop.active with
    | turn :: rest,[],none => (ConnLoop.next admits s.life (turn.label result)).map (s.waits rest)
    | _,_,_ => none
  | .call t method => if s.members t = .idle then some (s.moves t (method.first s.life.loop.conn.state)) else none
  | .compare t =>
    if s.members t = .compares then
      some (s.moves t (if s.life.loop.conn.state = .kDisconnecting then .sets .forceCloseInLoop else .idle))
    else none
  | .setState t =>
    match s.members t with
    | .sets cb => some ({s with life := {s.life with loop := s.life.loop.setState .kDisconnecting}}.moves t (.queues cb))
    | _ => none
  | .queueInLoop t =>
    match s.members t with
    | .queues cb => some ((s.push t cb).moves t .idle)
    | _ => none

def machine (admits : BitVec 32 → Bool) : Machine (ConnThreads Tid) (Label Tid) where
  start s := (ConnLoop.life admits).start s.life ∧ s.turns = [] ∧ ∀ t, s.members t = .idle
  next := next admits

@[simp] theorem moves_self (s : ConnThreads Tid) (t : Tid) (member : Member) :
    (s.moves t member).members t = member := by
  unfold moves
  exact Function.update_self ..

theorem moves_other {t other : Tid} (s : ConnThreads Tid) (apart : other ≠ t) (member : Member) :
    (s.moves t member).members other = s.members other := by
  unfold moves
  exact Function.update_of_ne apart ..

inductive Step (admits : BitVec 32 → Bool) (s : ConnThreads Tid) : Label Tid → ConnThreads Tid → Prop where
  | loop : own label = true → ConnLoop.next admits s.life label = some later →
      Step admits s (.loop label) (s.waits s.turns later)
  | runFunctor : s.turns = turn :: rest → s.life.loop.frames = [] → s.life.loop.active = none →
      ConnLoop.next admits s.life (turn.label result) = some later →
      Step admits s (.runFunctor result) (s.waits rest later)
  | call : s.members t = .idle → Step admits s (.call t method) (s.moves t (method.first s.life.loop.conn.state))
  | compare : s.members t = .compares → Step admits s (.compare t)
      (s.moves t (if s.life.loop.conn.state = .kDisconnecting then .sets .forceCloseInLoop else .idle))
  | setState : s.members t = .sets cb → Step admits s (.setState t)
      ({s with life := {s.life with loop := s.life.loop.setState .kDisconnecting}}.moves t (.queues cb))
  | queueInLoop : s.members t = .queues cb → Step admits s (.queueInLoop t) ((s.push t cb).moves t .idle)

theorem next_step (taken : next admits s label = some after) : Step admits s label after := by
  cases label with
  | loop label =>
    simp only [next] at taken
    split at taken
    · rename_i alone
      obtain ⟨_,ran,same⟩ := Option.map_eq_some_iff.mp taken
      rw [← same]
      exact .loop alone ran
    · cases taken
  | runFunctor result =>
    simp only [next] at taken
    split at taken
    · rename_i found ended idle
      obtain ⟨_,ran,same⟩ := Option.map_eq_some_iff.mp taken
      rw [← same]
      exact .runFunctor found ended idle ran
    · cases taken
  | call t method =>
    simp only [next] at taken
    split at taken
    · rename_i here
      cases taken
      exact .call here
    · cases taken
  | compare t =>
    simp only [next] at taken
    split at taken
    · rename_i here
      cases taken
      exact .compare here
    · cases taken
  | setState t =>
    simp only [next] at taken
    split at taken
    · rename_i here
      cases taken
      exact .setState here
    · cases taken
  | queueInLoop t =>
    simp only [next] at taken
    split at taken
    · rename_i here
      cases taken
      exact .queueInLoop here
    · cases taken

end ConnThreads
end NewMuduo
