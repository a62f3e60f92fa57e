import NewMuduo.Machine
import Mathlib.Logic.Function.Basic
import Mathlib.Data.List.Nodup
import Mathlib.Data.List.Range
import Mathlib.Algebra.Order.Ring.Int

namespace NewMuduo

-- base/MPMCQueue.h: a thread at each atomic step of enqueue and dequeue, with
-- the locals it still needs. item moves from the caller to the cell and out of
-- it; fewer than 2^63 operations keep every position and sequence exact.
inductive Thread (T : Type) where
  | idle
  | enqLoad (item : T)
  | enqSequence (item : T) (pos : Nat)
  | enqClaim (item : T) (pos : Nat)
  | enqWrite (item : T) (pos : Nat)
  | enqPublish (pos : Nat)
  | deqLoad
  | deqSequence (pos : Nat)
  | deqClaim (pos : Nat)
  | deqRead (pos : Nat)
  | deqRelease (pos : Nat) (out : T)

-- What a call returned. A refusal records whether the operation it waited for
-- had completed when the sequence was read.
inductive Outcome (T : Type) where
  | enqueued (pos : Nat)
  | full (pos : Nat) (vacated : Bool)
  | dequeued (pos : Nat) (out : T)
  | empty (pos : Nat) (filled : Bool)

-- The cells by index and the two cursors; the rest records the items in the
-- order of their enqueue positions, the positions in the order in which
-- dequeues won them, the operations that completed and what calls returned.
structure MPMCQueue (T Tid : Type) where
  sequence : Nat → Nat
  data : Nat → T
  enqueuePos : Nat
  dequeuePos : Nat
  threads : Tid → Thread T
  won : List T
  left : List Nat
  filled : Nat → Bool
  freed : Nat → Bool
  outcomes : List (Outcome T)

namespace MPMCQueue
variable {T Tid : Type} [DecidableEq Tid] {s : MPMCQueue T Tid} {k : Nat}

-- Capacity is 2^k and kMask one less.
def cell (k pos : Nat) : Nat := pos &&& (2 ^ k - 1)

def put (s : MPMCQueue T Tid) (t : Tid) (thread : Thread T) : MPMCQueue T Tid :=
  {s with threads := Function.update s.threads t thread}

def returns (s : MPMCQueue T Tid) (t : Tid) (outcome : Outcome T) : MPMCQueue T Tid :=
  {s.put t .idle with outcomes := s.outcomes ++ [outcome]}

-- compare_exchange_weak may fail although the value is the expected one.
def step (k : Nat) (movedFrom : T → T) (s : MPMCQueue T Tid) (t : Tid) (spurious : Bool) : MPMCQueue T Tid :=
  match s.threads t with
  | .idle => s
  | .enqLoad item => s.put t (.enqSequence item s.enqueuePos)
  | .enqSequence item pos =>
    let diff : Int := s.sequence (cell k pos) - pos
    if diff = 0 then s.put t (.enqClaim item pos)
    else if diff < 0 then s.returns t (.full pos (pos < 2 ^ k || s.freed (pos - 2 ^ k)))
    else s.put t (.enqLoad item)
  | .enqClaim item pos =>
    if s.enqueuePos = pos ∧ spurious = false then
      {s.put t (.enqWrite item pos) with enqueuePos := pos + 1,won := s.won ++ [item]}
    else s.put t (.enqSequence item s.enqueuePos)
  | .enqWrite item pos => {s.put t (.enqPublish pos) with data := Function.update s.data (cell k pos) item}
  | .enqPublish pos => {s.returns t (.enqueued pos) with
      sequence := Function.update s.sequence (cell k pos) (pos + 1)
      filled := Function.update s.filled pos true}
  | .deqLoad => s.put t (.deqSequence s.dequeuePos)
  | .deqSequence pos =>
    let diff : Int := s.sequence (cell k pos) - ((pos + 1 : Nat) : Int)
    if diff = 0 then s.put t (.deqClaim pos)
    else if diff < 0 then s.returns t (.empty pos (s.filled pos))
    else s.put t .deqLoad
  | .deqClaim pos =>
    if s.dequeuePos = pos ∧ spurious = false then
      {s.put t (.deqRead pos) with dequeuePos := pos + 1,left := s.left ++ [pos]}
    else s.put t (.deqSequence s.dequeuePos)
  | .deqRead pos => {s.put t (.deqRelease pos (s.data (cell k pos))) with
      data := Function.update s.data (cell k pos) (movedFrom (s.data (cell k pos)))}
  | .deqRelease pos out => {s.returns t (.dequeued pos out) with
      sequence := Function.update s.sequence (cell k pos) (pos + 2 ^ k)
      freed := Function.update s.freed pos true}

inductive Label (T Tid : Type) where
  | enqueue (t : Tid) (item : T)
  | dequeue (t : Tid)
  | step (t : Tid) (spurious : Bool)

def Thread.isIdle : Thread T → Bool
  | .idle => true
  | _ => false

def allowed (s : MPMCQueue T Tid) : Label T Tid → Bool
  | .enqueue t _ | .dequeue t => Thread.isIdle (s.threads t)
  | .step _ _ => true

def apply (k : Nat) (movedFrom : T → T) (s : MPMCQueue T Tid) : Label T Tid → MPMCQueue T Tid
  | .enqueue t item => s.put t (.enqLoad item)
  | .dequeue t => s.put t .deqLoad
  | .step t spurious => s.step k movedFrom t spurious

-- The constructor, over cells that hold what T() leaves there.
def new (initial : T) : MPMCQueue T Tid :=
  ⟨id,fun _ => initial,0,0,fun _ => .idle,[],[],fun _ => false,fun _ => false,[]⟩

def machine (k : Nat) (movedFrom : T → T) (initial : T) : Machine (MPMCQueue T Tid) (Label T Tid) :=
  .guarded (· = new initial) (fun s label => s.allowed label = true) (apply k movedFrom)

-- The atomic steps a thread can take, with what each has just read.
inductive Moves (k : Nat) (movedFrom : T → T) (s : MPMCQueue T Tid) (t : Tid) : MPMCQueue T Tid → Prop where
  | rest : Moves k movedFrom s t s
  | callEnqueue (item : T) : s.threads t = .idle → Moves k movedFrom s t (s.put t (.enqLoad item))
  | callDequeue : s.threads t = .idle → Moves k movedFrom s t (s.put t .deqLoad)
  | enqLoad : s.threads t = .enqLoad item → Moves k movedFrom s t (s.put t (.enqSequence item s.enqueuePos))
  | enqFree : s.threads t = .enqSequence item pos → s.sequence (cell k pos) = pos →
      Moves k movedFrom s t (s.put t (.enqClaim item pos))
  | enqFull : s.threads t = .enqSequence item pos → s.sequence (cell k pos) < pos →
      Moves k movedFrom s t (s.returns t (.full pos (pos < 2 ^ k || s.freed (pos - 2 ^ k))))
  | enqBehind : s.threads t = .enqSequence item pos → Moves k movedFrom s t (s.put t (.enqLoad item))
  | enqClaim : s.threads t = .enqClaim item s.enqueuePos → Moves k movedFrom s t
      {s.put t (.enqWrite item s.enqueuePos) with enqueuePos := s.enqueuePos + 1,won := s.won ++ [item]}
  | enqRetry : s.threads t = .enqClaim item pos → Moves k movedFrom s t (s.put t (.enqSequence item s.enqueuePos))
  | enqWrite : s.threads t = .enqWrite item pos → Moves k movedFrom s t
      {s.put t (.enqPublish pos) with data := Function.update s.data (cell k pos) item}
  | enqPublish : s.threads t = .enqPublish pos → Moves k movedFrom s t {s.returns t (.enqueued pos) with
      sequence := Function.update s.sequence (cell k pos) (pos + 1)
      filled := Function.update s.filled pos true}
  | deqLoad : s.threads t = .deqLoad → Moves k movedFrom s t (s.put t (.deqSequence s.dequeuePos))
  | deqReady : s.threads t = .deqSequence pos → s.sequence (cell k pos) = pos + 1 →
      Moves k movedFrom s t (s.put t (.deqClaim pos))
  | deqEmpty : s.threads t = .deqSequence pos → s.sequence (cell k pos) < pos + 1 →
      Moves k movedFrom s t (s.returns t (.empty pos (s.filled pos)))
  | deqBehind : s.threads t = .deqSequence pos → Moves k movedFrom s t (s.put t .deqLoad)
  | deqClaim : s.threads t = .deqClaim s.dequeuePos → Moves k movedFrom s t
      {s.put t (.deqRead s.dequeuePos) with dequeuePos := s.dequeuePos + 1,left := s.left ++ [s.dequeuePos]}
  | deqRetry : s.threads t = .deqClaim pos → Moves k movedFrom s t (s.put t (.deqSequence s.dequeuePos))
  | deqRead : s.threads t = .deqRead pos → Moves k movedFrom s t
      {s.put t (.deqRelease pos (s.data (cell k pos))) with
        data := Function.update s.data (cell k pos) (movedFrom (s.data (cell k pos)))}
  | deqRelease : s.threads t = .deqRelease pos out → Moves k movedFrom s t {s.returns t (.dequeued pos out) with
      sequence := Function.update s.sequence (cell k pos) (pos + 2 ^ k)
      freed := Function.update s.freed pos true}

-- Only the thread that moves changes its place.
theorem Moves.threads {movedFrom : T → T} {t : Tid} {after : MPMCQueue T Tid} (moved : Moves k movedFrom s t after) :
    after.threads = Function.update s.threads t (after.threads t) := by
  cases moved with
  | rest => exact (Function.update_eq_self t s.threads).symm
  | _ => exact congrArg (Function.update s.threads t) (Function.update_self t _ s.threads).symm

theorem step_moves (movedFrom : T → T) (t : Tid) (spurious : Bool) :
    Moves k movedFrom s t (s.step k movedFrom t spurious) := by
  unfold step
  split
  · exact .rest
  · rename_i here; exact .enqLoad here
  · rename_i here
    dsimp only
    split
    · rename_i equal; exact .enqFree here (by omega)
    · split
      · rename_i below; exact .enqFull here (by omega)
      · exact .enqBehind here
  · rename_i here
    split
    · rename_i won
      obtain ⟨rfl,_⟩ := won
      exact .enqClaim here
    · exact .enqRetry here
  · rename_i here; exact .enqWrite here
  · rename_i here; exact .enqPublish here
  · rename_i here; exact .deqLoad here
  · rename_i here
    dsimp only
    split
    · rename_i equal; exact .deqReady here (by omega)
    · split
      · rename_i below; exact .deqEmpty here (by omega)
      · exact .deqBehind here
  · rename_i here
    split
    · rename_i won
      obtain ⟨rfl,_⟩ := won
      exact .deqClaim here
    · exact .deqRetry here
  · rename_i here; exact .deqRead here
  · rename_i here; exact .deqRelease here

-- A call whose cell is behind its position returns at once.
theorem step_full (s : MPMCQueue T Tid) (movedFrom : T → T) (spurious : Bool) (here : s.threads t = .enqSequence item pos)
    (refused : s.sequence (cell k pos) < pos) : s.step k movedFrom t spurious =
      s.returns t (.full pos (pos < 2 ^ k || s.freed (pos - 2 ^ k))) := by
  unfold step
  rw [here]
  dsimp only
  rw [if_neg (by omega),if_pos (by omega)]

theorem step_empty (s : MPMCQueue T Tid) (movedFrom : T → T) (spurious : Bool) (here : s.threads t = .deqSequence pos)
    (refused : s.sequence (cell k pos) < pos + 1) : s.step k movedFrom t spurious =
      s.returns t (.empty pos (s.filled pos)) := by
  unfold step
  rw [here]
  dsimp only
  rw [if_neg (by omega),if_pos (by omega)]

theorem apply_moves (movedFrom : T → T) (label : Label T Tid) (able : s.allowed label = true) :
    ∃ t, Moves k movedFrom s t (s.apply k movedFrom label) := by
  have idle : ∀ t, Thread.isIdle (s.threads t) = true → s.threads t = .idle := by
    intro t found
    cases here : s.threads t <;> rw [here] at found <;> first | rfl | cases found
  cases label with
  | enqueue t item => exact ⟨t,.callEnqueue item (idle t able)⟩
  | dequeue t => exact ⟨t,.callDequeue (idle t able)⟩
  | step t spurious => exact ⟨t,step_moves movedFrom t spurious⟩

end MPMCQueue
end NewMuduo
