import NewMuduo.CoroutinePool
import NewMuduo.Ring
import Mathlib.Algebra.BigOperators.Group.Finset.Piecewise
import Mathlib.Tactic.Abel

namespace NewMuduo.CoroutinePool
open Extent FixedBlockPool
variable {s after : CoroutinePool} {chains : Slab → List Nat} {slab other : Slab} {live : List Block} {block : Block}
  {size p address : Nat}

-- The pool for a size, none for the global heap.
def slabOf (size : Nat) : Option Slab :=
  if size ≤ 256 then some .slab256
  else if size ≤ 512 then some .slab512
  else if size ≤ 1024 then some .slab1k
  else if size ≤ 2048 then some .slab2k
  else if size ≤ 4096 then some .slab4k
  else none

def giveBack (s : CoroutinePool) (origin : Option Slab) (ptr : Nat) : CoroutinePool :=
  match origin with
  | some slab => s.deallocateTo slab ptr
  | none => s.deleteGlobal

theorem allocate_slab (found : slabOf size = some slab) : s.allocate size = s.allocateFrom slab size := by
  unfold slabOf at found
  unfold allocate
  repeat' split at found
  all_goals cases found
  all_goals simp only [*,if_true,if_false]

theorem allocate_global (none : slabOf size = none) :
    s.allocate size = {s with globAlloc := (s.globAlloc + 1) % word,call := .large size} := by
  unfold slabOf at none
  unfold allocate
  repeat' split at none
  all_goals cases none
  all_goals simp only [*,if_false]

-- The two functions choose alike.
theorem deallocate_home (s : CoroutinePool) (ptr size : Nat) : s.deallocate ptr size = s.giveBack (slabOf size) ptr := by
  unfold slabOf deallocate
  repeat' split
  all_goals rfl

theorem slabOf_fits (found : slabOf size = some slab) : size ≤ slab.N := by
  unfold slabOf at found
  repeat' split at found
  all_goals cases found
  all_goals assumption

theorem slabOf_none : slabOf size = none ↔ 4096 < size := by
  unfold slabOf
  repeat' split
  all_goals simp only [reduceCtorEq,true_iff,false_iff]
  all_goals omega

theorem Slab.positive (slab : Slab) : 0 < slab.N := by
  cases slab <;> decide

-- The bytes of the chunks of a pool.
def territory (s : CoroutinePool) (slab : Slab) : Multiset Nat := covered ((s.pool slab).regions slab.N)

-- All bytes that are not for ::operator new to give.
def taken (pools : Slab → FixedBlockPool) (live : List Block) : Multiset Nat :=
  ∑ slab, covered ((pools slab).regions slab.N) + covered (global live)

-- chains is the ghost content of the free lists, fixed by the links in memory.
structure Laid (s : CoroutinePool) (chains : Slab → List Nat) : Prop where
  linked : ∀ slab, Linked 0 s.next (s.pool slab).freeList (chains slab)
  whole : ∀ slab, (chains slab ++ held s.live slab).Perm ((s.pool slab).cells slab.N)
  once : (taken s.pool s.live).Nodup
  inside : ∀ byte ∈ taken s.pool s.live, 0 < byte ∧ byte < word
  sized : ∀ block ∈ s.live, slabOf block.size = block.origin
  freed : ∀ slab, (s.pool slab).freed < word
  counted : ∀ slab, (s.pool slab).allocated ≡ (s.pool slab).freed + (held s.live slab).length [MOD word]

theorem held_cons (block : Block) (live : List Block) (slab : Slab) :
    held (block :: live) slab = (if block.origin = some slab then [block.ptr] else []) ++ held live slab := by
  unfold held
  rw [List.filter_cons]
  split <;> simp_all

theorem held_erase (member : block ∈ live) (slab : Slab) : (held live slab).Perm (held (block :: live.erase block) slab) :=
  ((List.perm_cons_erase member).filter _).map _

theorem global_cons (block : Block) (live : List Block) :
    covered (global (block :: live)) = (if block.origin = none then block.extent.bytes else 0) + covered (global live) := by
  unfold global
  rw [List.filter_cons]
  split <;> simp_all

theorem global_erase (member : block ∈ live) : covered (global live) = covered (global (block :: live.erase block)) :=
  covered_perm (((List.perm_cons_erase member).filter _).map _)

-- The blocks of users are blocks of the pools and of the heap.
theorem covered_live (live : List Block) :
    covered (live.map Block.extent) = ∑ slab, covered (blocks slab.N (held live slab)) + covered (global live) := by
  induction live with
  | nil => rfl
  | cons block rest ih =>
    have split : ∀ slab, covered (blocks slab.N (held (block :: rest) slab)) =
        (if block.origin = some slab then bytes ⟨block.ptr,slab.N⟩ else 0) + covered (blocks slab.N (held rest slab)) := by
      intro slab
      rw [held_cons,blocks_append,covered_append]
      split <;> simp
    rw [List.map_cons,covered_cons,ih,Finset.sum_congr rfl fun slab _ => split slab,Finset.sum_add_distrib,global_cons]
    cases home : block.origin with
    | none =>
      have nothing : ∑ slab : Slab, (if none = some slab then bytes ⟨block.ptr,slab.N⟩ else 0) = 0 :=
        Finset.sum_eq_zero fun slab _ => if_neg (by simp)
      rw [nothing,if_pos rfl]
      abel
    | some slab =>
      have one : ∑ other : Slab, (if some slab = some other then bytes ⟨block.ptr,other.N⟩ else 0) = block.extent.bytes := by
        unfold Block.extent
        rw [home]
        simp
      rw [one,if_neg (by simp)]
      abel

theorem fresh.disjoint {region : Extent} (fresh : s.fresh region) : Disjoint region.bytes (taken s.pool s.live) := by
  obtain ⟨_,_,_,slabs,others⟩ := fresh
  refine Multiset.disjoint_add_right.mpr ⟨Multiset.disjoint_left.mpr fun here there => ?_,disjoint_covered others⟩
  obtain ⟨slab,_,inside⟩ := Multiset.mem_sum.mp there
  exact Multiset.disjoint_left.mp (disjoint_covered (slabs slab)) here inside

theorem fresh.inside {region : Extent} (fresh : s.fresh region) : ∀ byte ∈ region.bytes, 0 < byte ∧ byte < word := by
  intro byte member
  have here := mem_bytes.mp member
  have real := fresh.1
  have below := fresh.2.2.1
  omega

-- Where the chunks of one pool change.
theorem territory_parts (s : CoroutinePool) (slab : Slab) : ∃ rest, ∑ other, s.territory other = s.territory slab + rest ∧
    ∀ pool : FixedBlockPool, ∑ other, covered ((Function.update s.pool slab pool other).regions other.N) =
      covered (pool.regions slab.N) + rest := by
  obtain ⟨rest,parts⟩ := sum_update_parts (fun (slab : Slab) (pool : FixedBlockPool) => covered (pool.regions slab.N)) s.pool
    (Finset.mem_univ slab)
  refine ⟨rest,?_,parts⟩
  have same := parts (s.pool slab)
  rw [Function.update_eq_self] at same
  exact same

namespace Laid

-- Free blocks and blocks of users make up the chunks.
theorem bytes (old : Laid s chains) (slab : Slab) :
    covered (blocks slab.N (chains slab)) + covered (blocks slab.N (held s.live slab)) = s.territory slab := by
  rw [← covered_append,← blocks_append]
  exact (covered_perm ((old.whole slab).map _)).trans (cells_covered _ _)

theorem territory_le (s : CoroutinePool) (slab : Slab) : s.territory slab ≤ taken s.pool s.live := by
  obtain ⟨rest,whole,_⟩ := territory_parts s slab
  unfold taken
  rw [show ∑ slab, covered ((s.pool slab).regions slab.N) = s.territory slab + rest from whole,add_assoc]
  exact Multiset.le_add_right _ _

theorem listed (old : Laid s chains) (node : address ∈ chains slab) : address ∈ s.territory slab := by
  rw [← old.bytes slab]
  exact Multiset.mem_add.mpr (.inl (base_mem_covered slab.positive node))

-- No byte belongs to two pools.
theorem same_slab (old : Laid s chains) (one : address ∈ s.territory slab) (two : address ∈ s.territory other) : slab = other := by
  by_contra apart
  have once := old.once
  unfold taken at once
  rw [← Finset.add_sum_erase _ _ (Finset.mem_univ slab),Multiset.nodup_add] at once
  obtain ⟨_,_,disjoint⟩ := Multiset.nodup_add.mp once.1
  exact Multiset.disjoint_left.mp disjoint one (Multiset.mem_sum.mpr ⟨other,Finset.mem_erase.mpr ⟨Ne.symm apart,Finset.mem_univ _⟩,two⟩)

theorem mem_held (member : block ∈ s.live) (home : block.origin = some slab) : block.ptr ∈ held s.live slab :=
  List.mem_map_of_mem (List.mem_filter.mpr ⟨member,decide_eq_true home⟩)

-- What a user has is in no free list.
theorem user (old : Laid s chains) (member : block ∈ s.live) (here : address ∈ block.extent.bytes) (slab : Slab) :
    address ∉ chains slab := by
  intro node
  have inside := old.listed node
  unfold Block.extent at here
  cases home : block.origin with
  | some mine =>
    rw [home] at here
    have used : address ∈ covered (blocks mine.N (held s.live mine)) :=
      mem_covered.mpr ⟨_,List.mem_map_of_mem (mem_held member home),here⟩
    have own : address ∈ s.territory mine := by
      rw [← old.bytes mine]
      exact Multiset.mem_add.mpr (.inr used)
    cases old.same_slab inside own
    have once := Multiset.nodup_of_le (territory_le s slab) old.once
    rw [← old.bytes slab] at once
    obtain ⟨_,_,apart⟩ := Multiset.nodup_add.mp once
    exact Multiset.disjoint_left.mp apart (base_mem_covered slab.positive node) used
  | none =>
    rw [home] at here
    obtain ⟨_,_,apart⟩ := Multiset.nodup_add.mp old.once
    refine Multiset.disjoint_left.mp apart (Multiset.mem_sum.mpr ⟨slab,Finset.mem_univ _,inside⟩) ?_
    refine mem_covered.mpr ⟨block.extent,List.mem_map_of_mem (List.mem_filter.mpr ⟨member,decide_eq_true home⟩),?_⟩
    unfold Block.extent
    rw [home]
    exact here

theorem write (old : Laid s chains) (able : s.mayWrite address) (value : Nat) :
    Laid {s with next := Function.update s.next address value} chains := by
  obtain ⟨_,block,member,above,below⟩ := able
  have align : kAlign = 8 := rfl
  have base : block.extent.base = block.ptr := by
    unfold Block.extent
    split <;> rfl
  have here : address ∈ block.extent.bytes := mem_bytes.mpr ⟨by omega,by omega⟩
  exact ⟨Linked.write old.linked (old.user member here) value,old.whole,old.once,old.inside,old.sized,old.freed,old.counted⟩

theorem call (old : Laid s chains) (call : Call) : Laid {s with call := call} chains :=
  ⟨old.linked,old.whole,old.once,old.inside,old.sized,old.freed,old.counted⟩

theorem heads (pools : Slab → FixedBlockPool) (slab : Slab) (pool : FixedBlockPool) (other : Slab) :
    (Function.update pools slab pool other).freeList = Function.update (fun other => (pools other).freeList) slab pool.freeList other :=
  Function.apply_update (fun _ pool => pool.freeList) pools slab pool other

-- One pool exchanges blocks with a user and keeps its chunks.
theorem exchange (old : Laid s chains) {pool : FixedBlockPool} {next : Nat → Nat} {nodes : List Nat} {peak : Slab → Nat} {call : Call}
    (linked : ∀ other, Linked 0 next (Function.update (fun other => (s.pool other).freeList) slab pool.freeList other)
      (Function.update chains slab nodes other))
    (chunks : pool.chunks = (s.pool slab).chunks)
    (mine : (nodes ++ held live slab).Perm (chains slab ++ held s.live slab))
    (elsewhere : ∀ other, other ≠ slab → (held live other).Perm (held s.live other))
    (heap : covered (global live) = covered (global s.live)) (sized : ∀ block ∈ live, slabOf block.size = block.origin)
    (freed : pool.freed < word) (counted : pool.allocated ≡ pool.freed + (held live slab).length [MOD word]) :
    Laid {s with pool := Function.update s.pool slab pool,next := next,live := live,call := call,peak := peak}
      (Function.update chains slab nodes) := by
  have same : ∀ other, (Function.update s.pool slab pool other).chunks = (s.pool other).chunks :=
    (Function.forall_update_iff s.pool fun other pool => pool.chunks = (s.pool other).chunks).mpr ⟨chunks,fun _ _ => rfl⟩
  have kept : taken (Function.update s.pool slab pool) live = taken s.pool s.live := by
    refine congrArg₂ (· + ·) (Finset.sum_congr rfl fun other _ => ?_) heap
    unfold regions
    rw [same]
  refine ⟨fun other => ?_,fun other => ?_,kept ▸ old.once,kept ▸ old.inside,sized,?_,fun other => ?_⟩
  · dsimp only
    rw [heads]
    exact linked other
  · have before := old.whole other
    unfold cells at *
    dsimp only
    rw [same]
    by_cases here : other = slab
    · rw [here] at before ⊢
      rw [Function.update_self]
      exact mine.trans before
    · rw [Function.update_of_ne here]
      exact ((elsewhere other here).append_left _).trans before
  · exact (Function.forall_update_iff s.pool fun _ pool => pool.freed < word).mpr ⟨freed,fun other _ => old.freed other⟩
  · dsimp only
    by_cases here : other = slab
    · rw [here,Function.update_self]
      exact counted
    · rw [Function.update_of_ne here,(elsewhere other here).length_eq]
      exact old.counted other

-- The first block of a list goes to a user.
theorem take (old : Laid s chains) (found : (s.pool slab).freeList ≠ 0) (chosen : slabOf size = some slab) :
    ∃ nodes, chains slab = (s.pool slab).freeList :: nodes ∧ Laid (s.take slab size) (Function.update chains slab nodes) := by
  obtain ⟨nodes,first,tail⟩ := (old.linked slab).pop found
  have gained : held (⟨(s.pool slab).freeList,size,some slab⟩ :: s.live) slab = (s.pool slab).freeList :: held s.live slab := by
    rw [held_cons,if_pos rfl]
    rfl
  refine ⟨nodes,first,old.exchange (Linked.change old.linked tail) rfl ?_ (fun other apart => ?_) ?_ ?_ (old.freed slab) ?_⟩
  · rw [first]
    dsimp only [FixedBlockPool.allocate]
    rw [gained]
    exact List.perm_middle
  · rw [held_cons,if_neg fun same => apart (Option.some.inj same).symm]
    exact .refl _
  · rw [global_cons,if_neg (by simp)]
    exact zero_add _
  · exact List.forall_mem_cons.mpr ⟨chosen,old.sized⟩
  · dsimp only [FixedBlockPool.allocate]
    rw [gained]
    exact (Nat.mod_modEq _ _).trans ((old.counted slab).add_right 1)

-- A block comes back to the list of its pool.
theorem deallocateTo (old : Laid s chains) (member : block ∈ s.live) (home : block.origin = some slab) :
    Laid {s.deallocateTo slab block.ptr with live := s.live.erase block} (Function.update chains slab (block.ptr :: chains slab)) := by
  have here : block.ptr ∈ block.extent.bytes := by
    unfold Block.extent
    rw [home]
    exact mem_bytes.mpr ⟨Nat.le_refl _,Nat.lt_add_of_pos_right slab.positive⟩
  have used : block.ptr ∈ taken s.pool s.live := by
    refine Multiset.mem_of_le (territory_le s slab) ?_
    rw [← old.bytes slab]
    exact Multiset.mem_add.mpr (.inr (base_mem_covered slab.positive (mem_held member home)))
  have real : block.ptr ≠ 0 := Nat.ne_of_gt (old.inside _ used).1
  have given : (held s.live slab).Perm (block.ptr :: held (s.live.erase block) slab) := by
    have same := held_erase member slab
    rw [held_cons,if_pos home] at same
    exact same
  unfold CoroutinePool.deallocateTo FixedBlockPool.deallocate
  rw [if_neg real]
  refine old.exchange (Linked.push old.linked real (old.user member here) slab) rfl ?_ (fun other apart => ?_) ?_ (fun block left => ?_)
    (Nat.mod_lt _ (Nat.two_pow_pos 64)) ?_
  · exact (List.perm_middle.symm).trans (given.symm.append_left _)
  · have same := held_erase member other
    rw [held_cons,home,if_neg fun same => apart (Option.some.inj same).symm] at same
    exact same.symm
  · rw [global_erase member,global_cons,home,if_neg (by simp)]
    exact (zero_add _).symm
  · exact old.sized block (List.mem_of_mem_erase left)
  · have counted := old.counted slab
    rw [given.length_eq,List.length_cons,← Nat.add_assoc,Nat.add_right_comm] at counted
    exact counted.trans ((Nat.mod_modEq _ _).symm.add_right _)

-- A large block comes from ::operator new and goes to ::operator delete.
theorem takeGlobal (old : Laid s chains) (none : slabOf size = none) (fresh : s.fresh ⟨p,size⟩) :
    Laid {s with call := .idle,live := ⟨p,size,.none⟩ :: s.live} chains := by
  have same : ∀ slab, held (⟨p,size,.none⟩ :: s.live) slab = held s.live slab := by
    intro slab
    rw [held_cons,if_neg (by simp)]
    rfl
  have grown : taken s.pool (⟨p,size,.none⟩ :: s.live) = Extent.bytes ⟨p,size⟩ + taken s.pool s.live := by
    unfold taken
    rw [global_cons,if_pos rfl]
    exact add_left_comm _ _ _
  refine ⟨old.linked,fun slab => ?_,?_,?_,List.forall_mem_cons.mpr ⟨none,old.sized⟩,old.freed,fun slab => ?_⟩
  · dsimp only
    rw [same]
    exact old.whole slab
  · exact grown ▸ Multiset.nodup_add.mpr ⟨bytes_nodup _,old.once,fresh.disjoint⟩
  · intro byte member
    dsimp only at member
    rw [grown] at member
    rcases Multiset.mem_add.mp member with new | before
    · exact fresh.inside byte new
    · exact old.inside byte before
  · dsimp only
    rw [same]
    exact old.counted slab

theorem deleteGlobal (old : Laid s chains) (member : block ∈ s.live) (home : block.origin = none) :
    Laid {s.deleteGlobal with live := s.live.erase block} chains := by
  have same : ∀ slab, (held s.live slab).Perm (held (s.live.erase block) slab) := by
    intro slab
    have parts := held_erase member slab
    rw [held_cons,home,if_neg (by simp)] at parts
    exact parts
  have shrunk : taken s.pool (s.live.erase block) ≤ taken s.pool s.live := by
    unfold taken
    rw [global_erase member,global_cons]
    exact add_le_add (le_refl _) (Multiset.le_add_left _ _)
  refine ⟨old.linked,fun slab => ?_,Multiset.nodup_of_le shrunk old.once,fun byte inside => old.inside byte (Multiset.mem_of_le shrunk inside),
    fun other left => old.sized other (List.mem_of_mem_erase left),old.freed,fun slab => ?_⟩
  · exact ((same slab).symm.append_left _).trans (old.whole slab)
  · dsimp only [CoroutinePool.deleteGlobal]
    rw [← (same slab).length_eq]
    exact old.counted slab

-- A chunk from ::operator new becomes free blocks of one pool.
theorem allocateChunk (old : Laid s chains) (fresh : s.fresh ⟨p,slab.N * kChunkSize⟩) :
    Laid (s.allocateChunk slab p) (Function.update chains slab ((row p slab.N kChunkSize).reverse ++ chains slab)) := by
  have apart : ∀ other, ∀ node ∈ chains other, node ∉ row p slab.N kChunkSize := by
    intro other node listed new
    exact Multiset.disjoint_left.mp fresh.disjoint (row_inside slab.positive new) (Multiset.mem_of_le (territory_le s other) (old.listed listed))
  have grown : taken (s.allocateChunk slab p).pool s.live = Extent.bytes ⟨p,slab.N * kChunkSize⟩ + taken s.pool s.live := by
    obtain ⟨rest,whole,parts⟩ := territory_parts s slab
    have before : ∑ other, covered ((s.pool other).regions other.N) = covered ((s.pool slab).regions slab.N) + rest := whole
    unfold taken
    dsimp only [CoroutinePool.allocateChunk]
    rw [parts,before]
    rw [allocateChunk_regions,covered_append,covered_cons,covered_nil]
    abel
  refine ⟨fun other => ?_,fun other => ?_,grown ▸ Multiset.nodup_add.mpr ⟨bytes_nodup _,old.once,fresh.disjoint⟩,?_,old.sized,?_,?_⟩
  · dsimp only [CoroutinePool.allocateChunk]
    rw [heads]
    refine Linked.change (fun other => ?_) (link_linked slab.positive fresh.1 (old.linked slab) kChunkSize (apart slab)) other
    exact (old.linked other).frame fun node listed => link_other (apart other node listed)
  · dsimp only [CoroutinePool.allocateChunk]
    by_cases here : other = slab
    · rw [here,Function.update_self,Function.update_self]
      rw [allocateChunk_cells,List.append_assoc]
      exact List.perm_append_comm.trans ((old.whole slab).append (List.reverse_perm _))
    · rw [Function.update_of_ne here,Function.update_of_ne here]
      exact old.whole other
  · intro byte member
    have split := member
    rw [show taken (s.allocateChunk slab p).pool (s.allocateChunk slab p).live = _ from grown] at split
    rcases Multiset.mem_add.mp split with new | before
    · exact fresh.inside byte new
    · exact old.inside byte before
  · exact (Function.forall_update_iff s.pool fun _ pool => pool.freed < word).mpr ⟨old.freed slab,fun other _ => old.freed other⟩
  · refine (Function.forall_update_iff s.pool fun other pool =>
      pool.allocated ≡ pool.freed + (held s.live other).length [MOD word]).mpr ⟨old.counted slab,fun other _ => old.counted other⟩

end Laid

end NewMuduo.CoroutinePool
