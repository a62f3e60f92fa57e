import NewMuduo.Machine
import NewMuduo.FixedBlockPool
import Mathlib.Data.Fintype.Defs

namespace NewMuduo

-- The pools slab256_, slab512_, slab1k_, slab2k_ and slab4k_.
inductive CoroutinePool.Slab where
  | slab256
  | slab512
  | slab1k
  | slab2k
  | slab4k
  deriving DecidableEq, Repr

-- The one thread is outside the pool or in ::operator new, called by allocate
-- itself or by allocateChunk of a pool that has no free block.
inductive CoroutinePool.Call where
  | idle
  | large (size : Nat)
  | chunk (slab : CoroutinePool.Slab) (size : Nat)
  deriving DecidableEq, Repr

-- A block out to a user, and the pool it came from, none for the global heap.
structure CoroutinePool.Block where
  ptr : Nat
  size : Nat
  origin : Option CoroutinePool.Slab
  deriving DecidableEq, Repr

-- pool/CoroutinePool.h. next has the words of the memory, live the blocks out to
-- users, and peak records for each pool how many of its blocks were out at most.
structure CoroutinePool where
  next : Nat → Nat
  pool : CoroutinePool.Slab → FixedBlockPool
  globAlloc : Nat
  globFree : Nat
  call : CoroutinePool.Call
  live : List CoroutinePool.Block
  peak : CoroutinePool.Slab → Nat

namespace CoroutinePool
open FixedBlockPool (kChunkSize word)

instance : Fintype Slab := ⟨{.slab256,.slab512,.slab1k,.slab2k,.slab4k},fun slab => by cases slab <;> decide⟩

-- The template parameter of each FixedBlockPool.
def Slab.N : Slab → Nat
  | .slab256 => 256
  | .slab512 => 512
  | .slab1k => 1024
  | .slab2k => 2048
  | .slab4k => 4096

def kAlign : Nat := 8

-- What ::operator new or a pool has set aside for a block.
def Block.extent (block : Block) : Extent :=
  match block.origin with
  | some slab => ⟨block.ptr,slab.N⟩
  | none => ⟨block.ptr,block.size⟩

def held (live : List Block) (slab : Slab) : List Nat := (live.filter (·.origin = some slab)).map (·.ptr)

def global (live : List Block) : List Extent := (live.filter (·.origin = none)).map Block.extent

-- FixedBlockPool::allocate with a free block there is.
def take (s : CoroutinePool) (slab : Slab) (size : Nat) : CoroutinePool :=
  let allocated := (s.pool slab).allocate s.next
  {s with
    pool := Function.update s.pool slab allocated.1
    call := .idle
    live := ⟨allocated.2,size,some slab⟩ :: s.live
    peak := Function.update s.peak slab (max (s.peak slab) ((held s.live slab).length + 1))}

-- FixedBlockPool::allocate.
def allocateFrom (s : CoroutinePool) (slab : Slab) (size : Nat) : CoroutinePool :=
  if (s.pool slab).freeList = 0 then {s with call := .chunk slab size} else s.take slab size

def allocate (s : CoroutinePool) (size : Nat) : CoroutinePool :=
  if size ≤ 256 then s.allocateFrom .slab256 size
  else if size ≤ 512 then s.allocateFrom .slab512 size
  else if size ≤ 1024 then s.allocateFrom .slab1k size
  else if size ≤ 2048 then s.allocateFrom .slab2k size
  else if size ≤ 4096 then s.allocateFrom .slab4k size
  else {s with globAlloc := (s.globAlloc + 1) % word,call := .large size}

-- FixedBlockPool::deallocate.
def deallocateTo (s : CoroutinePool) (slab : Slab) (ptr : Nat) : CoroutinePool :=
  let freed := (s.pool slab).deallocate s.next ptr
  {s with pool := Function.update s.pool slab freed.1,next := freed.2}

def deleteGlobal (s : CoroutinePool) : CoroutinePool := {s with globFree := (s.globFree + 1) % word}

def deallocate (s : CoroutinePool) (ptr size : Nat) : CoroutinePool :=
  if size ≤ 256 then s.deallocateTo .slab256 ptr
  else if size ≤ 512 then s.deallocateTo .slab512 ptr
  else if size ≤ 1024 then s.deallocateTo .slab1k ptr
  else if size ≤ 2048 then s.deallocateTo .slab2k ptr
  else if size ≤ 4096 then s.deallocateTo .slab4k ptr
  else s.deleteGlobal

def beside (one other : Extent) : Prop := one.base + one.size ≤ other.base ∨ other.base + other.size ≤ one.base

-- Where ::operator new may find memory: aligned, and no byte of it in use.
def fresh (s : CoroutinePool) (region : Extent) : Prop :=
  0 < region.base ∧ region.base % kAlign = 0 ∧ region.base + region.size ≤ word ∧
    (∀ slab, ∀ other ∈ (s.pool slab).regions slab.N, beside region other) ∧ ∀ other ∈ global s.live, beside region other

instance (s : CoroutinePool) (region : Extent) : Decidable (s.fresh region) := by
  unfold fresh beside
  infer_instance

-- FixedBlockPool::allocateChunk with what ::operator new returned.
def allocateChunk (s : CoroutinePool) (slab : Slab) (mem : Nat) : CoroutinePool :=
  let grown := (s.pool slab).allocateChunk slab.N s.next mem
  {s with pool := Function.update s.pool slab grown.1,next := grown.2}

-- ::operator new returns p, and allocate goes on.
def operatorNew (s : CoroutinePool) (p : Nat) : Option CoroutinePool :=
  match s.call with
  | .idle => none
  | .large size => if s.fresh ⟨p,size⟩ then some {s with call := .idle,live := ⟨p,size,none⟩ :: s.live} else none
  | .chunk slab size =>
    if s.fresh ⟨p,slab.N * kChunkSize⟩ then some ((s.allocateChunk slab p).take slab size) else none

-- A user writes a word of a block.
def mayWrite (s : CoroutinePool) (address : Nat) : Prop :=
  address % kAlign = 0 ∧ ∃ block ∈ s.live, block.ptr ≤ address ∧ address + kAlign ≤ block.ptr + block.extent.size

instance (s : CoroutinePool) (address : Nat) : Decidable (s.mayWrite address) := by
  unfold mayWrite
  infer_instance

inductive Label where
  | allocate (size : Nat)
  | operatorNew (p : Nat)
  | badAlloc
  | deallocate (block : Block)
  | write (address value : Nat)
  deriving DecidableEq, Repr

def step (s : CoroutinePool) : Label → Option CoroutinePool
  | .allocate size => if s.call = .idle then some (s.allocate size) else none
  | .operatorNew p => s.operatorNew p
  | .badAlloc => if s.call ≠ .idle then some {s with call := .idle} else none
  | .deallocate block =>
    if s.call = .idle ∧ block ∈ s.live then some {s.deallocate block.ptr block.size with live := s.live.erase block} else none
  | .write address value =>
    if s.call = .idle ∧ s.mayWrite address then some {s with next := Function.update s.next address value} else none

-- Any memory, before the constructors of the members.
def blank (memory : Nat → Nat) : CoroutinePool where
  next := memory
  pool _ := .new
  globAlloc := 0
  globFree := 0
  call := .idle
  live := []
  peak _ := 0

-- The constructors of the members in their order; mem has what ::operator new
-- returns to each.
def construct (memory : Nat → Nat) (mem : Slab → Nat) : Option CoroutinePool :=
  [Slab.slab256,.slab512,.slab1k,.slab2k,.slab4k].foldlM (fun s slab =>
    if s.fresh ⟨mem slab,slab.N * kChunkSize⟩ then some (s.allocateChunk slab (mem slab)) else none) (blank memory)

def machine : Machine CoroutinePool Label where
  start s := ∃ memory mem, construct memory mem = some s
  next := step

end CoroutinePool
end NewMuduo
