import NewMuduo.Machine
import NewMuduo.Extents
import NewMuduo.Linked

namespace NewMuduo

-- pool/SlabAllocator.h. Addresses and sizes are numbers of 64 bits, nullptr is
-- 0, and next has the words of the memory. allocating says that allocate is in
-- ::operator new, and live has the objects out to users.
structure SlabAllocator where
  objectSize : Nat
  objectsPerSlab : Nat
  freeList : Nat
  slabs : List Nat
  next : Nat → Nat
  allocating : Bool
  live : List Nat

namespace SlabAllocator
open Extent

def word : Nat := 2 ^ 64

-- sizeof(void*) and alignof(std::max_align_t).
def pointerSize : Nat := 8
def maxAlign : Nat := 16

-- The constructor, in any memory.
def new (objectSize objectsPerSlab : Nat) (memory : Nat → Nat) : SlabAllocator where
  objectSize := max objectSize pointerSize
  objectsPerSlab := objectsPerSlab
  freeList := 0
  slabs := []
  next := memory
  allocating := false
  live := []

def deallocate (s : SlabAllocator) (ptr : Nat) : SlabAllocator :=
  if ptr = 0 then s else {s with next := Function.update s.next ptr s.freeList,freeList := ptr}

-- allocate with freeList_ not null.
def take (s : SlabAllocator) : SlabAllocator :=
  {s with freeList := s.next s.freeList,allocating := false,live := s.freeList :: s.live}

def allocate (s : SlabAllocator) : SlabAllocator :=
  if s.freeList = 0 then {s with allocating := true} else s.take

def slabSize (s : SlabAllocator) : Nat := s.objectSize * s.objectsPerSlab % word

-- mem + i * objectSize_, both in 64 bits.
def object (s : SlabAllocator) (mem i : Nat) : Nat := (mem + i * s.objectSize) % word

-- The loop of allocateSlab after so many rounds.
def fill (s : SlabAllocator) (mem : Nat) : Nat → SlabAllocator
  | 0 => s
  | i + 1 => (s.fill mem i).deallocate (s.object mem i)

-- allocateSlab once ::operator new has returned mem.
def allocateSlab (s : SlabAllocator) (mem : Nat) : SlabAllocator :=
  fill {s with slabs := s.slabs ++ [mem]} mem s.objectsPerSlab

def regions (s : SlabAllocator) : List Extent := s.slabs.map fun mem => ⟨mem,s.slabSize⟩

-- All objects there are, in the list or out.
def objects (s : SlabAllocator) : List Nat := s.slabs.flatMap fun mem => (List.range s.objectsPerSlab).map (s.object mem)

-- Where ::operator new may find memory: aligned, and no byte of it in a slab.
def fresh (s : SlabAllocator) (mem : Nat) : Prop :=
  0 < mem ∧ mem % maxAlign = 0 ∧ mem + s.slabSize ≤ word ∧
    ∀ other ∈ s.slabs, mem + s.slabSize ≤ other ∨ other + s.slabSize ≤ mem

instance (s : SlabAllocator) (mem : Nat) : Decidable (s.fresh mem) := by
  unfold fresh
  infer_instance

-- A user writes bytes of an object: a word with one of these bytes may change.
def mayWrite (s : SlabAllocator) (address : Nat) : Prop :=
  ∃ ptr ∈ s.live, ptr < address + pointerSize ∧ address < ptr + s.objectSize

instance (s : SlabAllocator) (address : Nat) : Decidable (s.mayWrite address) := by
  unfold mayWrite
  infer_instance

inductive Label where
  | allocate
  | operatorNew (mem : Nat)
  | badAlloc
  | deallocate (ptr : Nat)
  | write (address value : Nat)
  deriving DecidableEq, Repr

-- Each live object is given back once, and null may be. badAlloc: ::operator new
-- throws, or push_back does and the new slab is lost.
def step (s : SlabAllocator) : Label → Option SlabAllocator
  | .allocate => if s.allocating = false then some s.allocate else none
  | .operatorNew mem => if s.allocating = true ∧ s.fresh mem then some (s.allocateSlab mem).take else none
  | .badAlloc => if s.allocating = true then some {s with allocating := false} else none
  | .deallocate ptr =>
    if s.allocating = false ∧ (ptr = 0 ∨ ptr ∈ s.live) then some {s.deallocate ptr with live := s.live.erase ptr} else none
  | .write address value =>
    if s.mayWrite address then some {s with next := Function.update s.next address value} else none

def machine (objectSize objectsPerSlab : Nat) : Machine SlabAllocator Label where
  start s := ∃ memory, s = new objectSize objectsPerSlab memory
  next := step

end SlabAllocator
end NewMuduo
