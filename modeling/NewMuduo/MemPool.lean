import NewMuduo.Machine
import NewMuduo.Extents
import Mathlib.Logic.Function.Basic

namespace NewMuduo

-- The one thread is outside the pool or in ::operator new, called by
-- allocate(n) itself or by the chunkAlloc that it needs.
inductive MemPool.Call where
  | idle
  | large (n : Nat)
  | chunk (n : Nat)
  deriving DecidableEq, Repr

-- pool/MemPool.h. Addresses and sizes are numbers of 64 bits, nullptr is 0, and
-- next has the words that are the links of free blocks. live has the blocks out
-- to users with the n they were allocated for, obtained what ::operator new
-- returned to chunkAlloc.
structure MemPool where
  freeList : Nat → Nat
  next : Nat → Nat
  startFree : Nat
  endFree : Nat
  heapSize : Nat
  totalAllocated : Nat
  totalFreed : Nat
  call : MemPool.Call
  live : List (Nat × Nat)
  obtained : List Extent

namespace MemPool

def kMaxBytes : Nat := 256
def kAlign : Nat := 8
def kNumFreeLists : Nat := kMaxBytes / kAlign
def word : Nat := 2 ^ 64

-- The mask is the complement of kAlign - 1 in a size_t.
def roundUp (bytes : Nat) : Nat := (bytes + kAlign - 1) &&& (word - kAlign)

def freeListIndex (bytes : Nat) : Nat := (bytes + kAlign - 1) / kAlign - 1

-- What a user may use of a block: a small one has the size of its class.
def granted (block : Nat × Nat) : Extent := ⟨block.1,if kMaxBytes < block.2 then block.2 else roundUp block.2⟩

def small (live : List (Nat × Nat)) : List Extent := (live.filter fun block => block.2 ≤ kMaxBytes).map granted

def large (live : List (Nat × Nat)) : List Extent := (live.filter fun block => kMaxBytes < block.2).map granted

-- node->next = freeList_[idx]; freeList_[idx] = node;
def push (s : MemPool) (idx node : Nat) : MemPool :=
  {s with
    next := Function.update s.next node (s.freeList idx)
    freeList := Function.update s.freeList idx node}

def bytesToGet (s : MemPool) (size nobjs : Nat) : Nat := 2 * (size * nobjs) + roundUp (s.heapSize >>> 4)

-- chunkAlloc up to its return, with result and nobjs, or to ::operator new.
def chunkAlloc (s : MemPool) (size nobjs : Nat) : MemPool × Option (Nat × Nat) :=
  let totalBytes := size * nobjs
  let bytesLeft := s.endFree - s.startFree
  if totalBytes ≤ bytesLeft then ({s with startFree := s.startFree + totalBytes},some (s.startFree,nobjs))
  else if size ≤ bytesLeft then
    ({s with startFree := s.startFree + size * (bytesLeft / size)},some (s.startFree,bytesLeft / size))
  else if 0 < bytesLeft then (s.push (freeListIndex bytesLeft) s.startFree,none)
  else (s,none)

-- The loop of refill from current on and the end of the list behind it.
def link (next : Nat → Nat) (n current : Nat) : Nat → Nat → Nat
  | 0 => Function.update next current 0
  | count + 1 => link (Function.update next current (current + n)) n (current + n) count

-- refill after chunkAlloc.
def fill (s : MemPool) (n chunk nobjs : Nat) : MemPool :=
  if nobjs = 1 then s
  else {s with
    freeList := Function.update s.freeList (freeListIndex n) (chunk + n)
    next := link s.next n (chunk + n) (nobjs - 2)}

-- allocate(n) from return refill(roundUp(n)) on.
def refill (s : MemPool) (n : Nat) : MemPool :=
  match s.chunkAlloc (roundUp n) 20 with
  | (after,some (chunk,nobjs)) => {after.fill (roundUp n) chunk nobjs with call := .idle,live := (chunk,n) :: after.live}
  | (after,none) => {after with call := .chunk n}

def allocate (s : MemPool) (n : Nat) : MemPool :=
  if kMaxBytes < n then {s with totalAllocated := (s.totalAllocated + n) % word,call := .large n}
  else
    let idx := freeListIndex n
    let result := s.freeList idx
    if result = 0 then s.refill n
    else {s with
      freeList := Function.update s.freeList idx (s.next result)
      totalAllocated := (s.totalAllocated + n) % word
      live := (result,n) :: s.live}

def deallocate (s : MemPool) (p n : Nat) : MemPool :=
  let freed := {s with totalFreed := (s.totalFreed + n) % word,live := s.live.erase (p,n)}
  if kMaxBytes < n then freed else freed.push (freeListIndex n) p

-- Where ::operator new may find memory: aligned, and no byte of it in use.
def fresh (s : MemPool) (region : Extent) : Prop :=
  0 < region.base ∧ region.base % kAlign = 0 ∧ region.base + region.size ≤ word ∧
    ∀ other ∈ s.obtained ++ large s.live, region.base + region.size ≤ other.base ∨ other.base + other.size ≤ region.base

instance (s : MemPool) (region : Extent) : Decidable (s.fresh region) := by
  unfold fresh
  infer_instance

-- ::operator new returns p, and allocate or chunkAlloc goes on.
def operatorNew (s : MemPool) (p : Nat) : Option MemPool :=
  match s.call with
  | .idle => none
  | .large n => if s.fresh ⟨p,n⟩ then some {s with call := .idle,live := (p,n) :: s.live} else none
  | .chunk n =>
    let bytes := s.bytesToGet (roundUp n) 20
    if s.fresh ⟨p,bytes⟩ then
      some ({s with
        startFree := p
        heapSize := (s.heapSize + bytes) % word
        endFree := p + bytes
        obtained := ⟨p,bytes⟩ :: s.obtained}.refill n)
    else none

-- A user writes a word of a block.
def mayWrite (s : MemPool) (address : Nat) : Prop :=
  address % kAlign = 0 ∧ ∃ block ∈ s.live, (granted block).base ≤ address ∧ address + kAlign ≤ (granted block).base + (granted block).size

instance (s : MemPool) (address : Nat) : Decidable (s.mayWrite address) := by
  unfold mayWrite
  infer_instance

inductive Label where
  | allocate (n : Nat)
  | operatorNew (p : Nat)
  | badAlloc
  | deallocate (p n : Nat)
  | write (address value : Nat)
  deriving DecidableEq, Repr

def step (s : MemPool) : Label → Option MemPool
  | .allocate n => if s.call = .idle ∧ 1 ≤ n then some (s.allocate n) else none
  | .operatorNew p => s.operatorNew p
  | .badAlloc => if s.call ≠ .idle then some {s with call := .idle} else none
  | .deallocate p n => if s.call = .idle ∧ (p,n) ∈ s.live then some (s.deallocate p n) else none
  | .write address value =>
    if s.call = .idle ∧ s.mayWrite address then some {s with next := Function.update s.next address value} else none

-- The pool as MemPool() leaves it, in any memory.
def empty (memory : Nat → Nat) : MemPool where
  freeList _ := 0
  next := memory
  startFree := 0
  endFree := 0
  heapSize := 0
  totalAllocated := 0
  totalFreed := 0
  call := .idle
  live := []
  obtained := []

def machine : Machine MemPool Label where
  start s := ∃ memory, s = empty memory
  next := step

end MemPool
end NewMuduo
