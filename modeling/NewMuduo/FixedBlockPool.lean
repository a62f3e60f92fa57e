import NewMuduo.Extents
import NewMuduo.Linked

namespace NewMuduo

-- pool/FixedBlockPool.h. Addresses and counters are numbers of 64 bits, nullptr
-- is 0, and the links of the nodes are words of the memory that all blocks share.
structure FixedBlockPool where
  freeList : Nat
  chunks : List Nat
  allocated : Nat
  freed : Nat
  deriving DecidableEq, Repr

namespace FixedBlockPool
open Extent
variable {pool : FixedBlockPool} {next : Nat → Nat} {chain : List Nat} {N mem head address ptr : Nat}

def kChunkSize : Nat := 64
def word : Nat := 2 ^ 64

-- Before the constructor calls allocateChunk.
def new : FixedBlockPool := ⟨0,[],0,0⟩

-- The loop of allocateChunk, with freeList_ in head.
def link (N mem : Nat) (next : Nat → Nat) (head : Nat) : Nat → (Nat → Nat) × Nat
  | 0 => (next,head)
  | i + 1 =>
    let linked := link N mem next head i
    let node := mem + i * N
    (Function.update linked.1 node linked.2,node)

-- allocateChunk once ::operator new has returned mem.
def allocateChunk (pool : FixedBlockPool) (N : Nat) (next : Nat → Nat) (mem : Nat) : FixedBlockPool × (Nat → Nat) :=
  let linked := link N mem next pool.freeList kChunkSize
  ({pool with freeList := linked.2,chunks := pool.chunks ++ [mem]},linked.1)

-- allocate() with freeList_ not null.
def allocate (pool : FixedBlockPool) (next : Nat → Nat) : FixedBlockPool × Nat :=
  ({pool with freeList := next pool.freeList,allocated := (pool.allocated + 1) % word},pool.freeList)

def deallocate (pool : FixedBlockPool) (next : Nat → Nat) (ptr : Nat) : FixedBlockPool × (Nat → Nat) :=
  if ptr = 0 then (pool,next)
  else ({pool with freeList := ptr,freed := (pool.freed + 1) % word},Function.update next ptr pool.freeList)

-- allocatedCount() - freedCount() in a size_t.
def outstanding (pool : FixedBlockPool) : Nat := (pool.allocated + (word - pool.freed)) % word

def regions (pool : FixedBlockPool) (N : Nat) : List Extent := pool.chunks.map fun mem => ⟨mem,N * kChunkSize⟩

-- The addresses of all blocks there are.
def cells (pool : FixedBlockPool) (N : Nat) : List Nat := pool.chunks.flatMap fun mem => row mem N kChunkSize

-- The nodes are pushed one after the other.
theorem link_eq (N mem : Nat) (next : Nat → Nat) (head count : Nat) : link N mem next head count = Linked.pushed next head (row mem N count) := by
  induction count with
  | zero => rfl
  | succ i ih =>
    rw [row_succ,Linked.pushed_snoc,← ih,Nat.mul_comm]
    rfl

theorem link_other {count : Nat} (apart : address ∉ row mem N count) : (link N mem next head count).1 address = next address := by
  rw [link_eq]
  exact Linked.pushed_other apart

-- The nodes come in front of the list, the last one first.
theorem link_linked (positive : 0 < N) (real : 0 < mem) (old : Linked 0 next head chain) (count : Nat)
    (apart : ∀ node ∈ chain, node ∉ row mem N count) :
    Linked 0 (link N mem next head count).1 (link N mem next head count).2 ((row mem N count).reverse ++ chain) := by
  rw [link_eq]
  refine Linked.pushed_linked old (row_nodup positive mem count) (fun node member => ?_) fun node member there => apart node there member
  obtain ⟨i,_,rfl⟩ := mem_row member
  omega

theorem cells_covered (pool : FixedBlockPool) (N : Nat) : covered (blocks N (pool.cells N)) = covered (pool.regions N) :=
  covered_rows N kChunkSize pool.chunks

theorem cells_length (pool : FixedBlockPool) (N : Nat) : (pool.cells N).length = kChunkSize * pool.chunks.length := by
  unfold cells
  induction pool.chunks with
  | nil => rfl
  | cons mem rest ih =>
    rw [List.flatMap_cons,List.length_append,ih,length_row,List.length_cons,Nat.mul_succ]
    exact Nat.add_comm _ _

theorem allocateChunk_cells (pool : FixedBlockPool) (N : Nat) (next : Nat → Nat) (mem : Nat) :
    (pool.allocateChunk N next mem).1.cells N = pool.cells N ++ row mem N kChunkSize := by
  unfold allocateChunk cells
  rw [List.flatMap_append,List.flatMap_singleton]

theorem allocateChunk_regions (pool : FixedBlockPool) (N : Nat) (next : Nat → Nat) (mem : Nat) :
    (pool.allocateChunk N next mem).1.regions N = pool.regions N ++ [⟨mem,N * kChunkSize⟩] := by
  unfold allocateChunk regions
  rw [List.map_append,List.map_singleton]

end FixedBlockPool
end NewMuduo
