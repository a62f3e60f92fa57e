import NewMuduo.MPMCQueue
import Mathlib.Data.BitVec

namespace NewMuduo

-- base/MPMCQueueV2.h: a 128-bit word of a value and a version.
structure DoubleWord where
  value : BitVec 64
  tag : BitVec 64
deriving DecidableEq

-- A thread at each atomic step of enqueue and dequeue. The reload after a
-- failed exchange is the load at the start.
inductive ThreadV2 (T : Type) where
  | idle
  | enqLoad (item : T)
  | enqSequence (item : T) (pos : DoubleWord)
  | enqClaim (item : T) (pos : DoubleWord)
  | enqWrite (item : T) (pos : DoubleWord)
  | enqPublish (pos : DoubleWord)
  | deqLoad
  | deqSequence (pos : DoubleWord)
  | deqClaim (pos : DoubleWord)
  | deqRead (pos : DoubleWord)
  | deqRelease (pos : DoubleWord) (out : T)

-- What enqueue and dequeue return, with the item moved to out.
inductive QueueResult (T : Type) where
  | enqueue (ok : Bool)
  | dequeue (out : Option T)

-- The cells by index and the two cursors; the rest records the calls begun and
-- what calls returned.
structure MPMCQueueV2 (T Tid : Type) where
  sequence : Nat → DoubleWord
  data : Nat → T
  enqueuePos : DoubleWord
  dequeuePos : DoubleWord
  threads : Tid → ThreadV2 T
  calls : Nat
  results : List (QueueResult T)

namespace MPMCQueueV2
variable {T Tid : Type} [DecidableEq Tid]

-- Capacity is 2^k and kMask one less.
def cell (k : Nat) (pos : DoubleWord) : Nat := (pos.value &&& BitVec.ofNat 64 (2 ^ k - 1)).toNat

def put (s : MPMCQueueV2 T Tid) (t : Tid) (thread : ThreadV2 T) : MPMCQueueV2 T Tid :=
  {s with threads := Function.update s.threads t thread}

def returns (s : MPMCQueueV2 T Tid) (t : Tid) (result : QueueResult T) : MPMCQueueV2 T Tid :=
  {s.put t .idle with results := s.results ++ [result]}

-- dwCAS compares both words and never fails spuriously.
def step (k : Nat) (movedFrom : T → T) (s : MPMCQueueV2 T Tid) (t : Tid) : MPMCQueueV2 T Tid :=
  match s.threads t with
  | .idle => s
  | .enqLoad item => s.put t (.enqSequence item s.enqueuePos)
  | .enqSequence item pos =>
    let seq := s.sequence (cell k pos)
    if seq.value = pos.value then s.put t (.enqClaim item pos)
    else if seq.value < pos.value then s.returns t (.enqueue false)
    else s.put t (.enqLoad item)
  | .enqClaim item pos =>
    if s.enqueuePos = pos then {s.put t (.enqWrite item pos) with enqueuePos := ⟨pos.value + 1,pos.tag⟩}
    else s.put t (.enqLoad item)
  | .enqWrite item pos => {s.put t (.enqPublish pos) with data := Function.update s.data (cell k pos) item}
  | .enqPublish pos => {s.returns t (.enqueue true) with
      sequence := Function.update s.sequence (cell k pos) ⟨pos.value + 1,pos.tag⟩}
  | .deqLoad => s.put t (.deqSequence s.dequeuePos)
  | .deqSequence pos =>
    let seq := s.sequence (cell k pos)
    if seq.value = pos.value + 1 then s.put t (.deqClaim pos)
    else if seq.value < pos.value + 1 then s.returns t (.dequeue none)
    else s.put t .deqLoad
  | .deqClaim pos =>
    if s.dequeuePos = pos then {s.put t (.deqRead pos) with dequeuePos := ⟨pos.value + 1,pos.tag⟩}
    else s.put t .deqLoad
  | .deqRead pos => {s.put t (.deqRelease pos (s.data (cell k pos))) with
      data := Function.update s.data (cell k pos) (movedFrom (s.data (cell k pos)))}
  | .deqRelease pos out => {s.returns t (.dequeue (some out)) with
      sequence := Function.update s.sequence (cell k pos) ⟨pos.value + BitVec.ofNat 64 (2 ^ k),pos.tag + 1⟩}

inductive Label (T Tid : Type) where
  | enqueue (t : Tid) (item : T)
  | dequeue (t : Tid)
  | step (t : Tid)

def Label.isCall : Label T Tid → Bool
  | .step _ => false
  | _ => true

def ThreadV2.isIdle : ThreadV2 T → Bool
  | .idle => true
  | _ => false

def allowed (s : MPMCQueueV2 T Tid) : Label T Tid → Bool
  | .enqueue t _ | .dequeue t => ThreadV2.isIdle (s.threads t)
  | .step _ => true

def apply (k : Nat) (movedFrom : T → T) (s : MPMCQueueV2 T Tid) : Label T Tid → MPMCQueueV2 T Tid
  | .enqueue t item => {s.put t (.enqLoad item) with calls := s.calls + 1}
  | .dequeue t => {s.put t .deqLoad with calls := s.calls + 1}
  | .step t => s.step k movedFrom t

-- The constructor, over cells that hold what T() leaves there.
def new (initial : T) : MPMCQueueV2 T Tid :=
  ⟨fun i => ⟨BitVec.ofNat 64 i,0⟩,fun _ => initial,⟨0,0⟩,⟨0,0⟩,fun _ => .idle,0,[]⟩

def machine (k : Nat) (movedFrom : T → T) (initial : T) : Machine (MPMCQueueV2 T Tid) (Label T Tid) :=
  .guarded (· = new initial) (fun s label => s.allowed label = true) (apply k movedFrom)

end MPMCQueueV2
end NewMuduo
