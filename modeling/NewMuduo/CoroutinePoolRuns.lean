import NewMuduo.CoroutinePoolBlocks
import Mathlib.Algebra.Order.BigOperators.Group.Finset

namespace NewMuduo.CoroutinePool
open Extent FixedBlockPool
variable {s after : CoroutinePool} {chains : Slab → List Nat} {slab : Slab} {block : Block} {size p : Nat}

-- Peaks, and the chunks that they took.
def Grown (s : CoroutinePool) : Prop := ∀ slab, (held s.live slab).length ≤ s.peak slab ∧
  (s.pool slab).chunks.length = max 1 ((s.peak slab + (kChunkSize - 1)) / kChunkSize)

-- What ::operator new was called for.
def Asking (s : CoroutinePool) : Call → Prop
  | .idle => True
  | .large size => slabOf size = none
  | .chunk slab size => slabOf size = some slab ∧ (s.pool slab).freeList = 0

structure Kept (s : CoroutinePool) : Prop where
  laid : ∃ chains, Laid s chains
  grown : Grown s
  asking : Asking s s.call

-- Free blocks and those of users are 64 for each chunk.
theorem Laid.count (old : Laid s chains) (slab : Slab) :
    (chains slab).length + (held s.live slab).length = kChunkSize * (s.pool slab).chunks.length := by
  rw [← List.length_append,(old.whole slab).length_eq,cells_length]

theorem held_take (s : CoroutinePool) (slab : Slab) (size : Nat) (other : Slab) : (held (s.take slab size).live other).length =
    (if other = slab then 1 else 0) + (held s.live other).length := by
  unfold take
  rw [held_cons,List.length_append]
  by_cases here : other = slab
  · rw [here,if_pos rfl,if_pos rfl]
    rfl
  · rw [if_neg here,if_neg fun same => here (Option.some.inj same).symm]
    rfl

-- The pools but the one of the block are as they were, and that one has the
-- chunks that its new peak takes.
theorem Grown.take (elsewhere : ∀ other, other ≠ slab → (held s.live other).length ≤ s.peak other ∧
      (s.pool other).chunks.length = max 1 ((s.peak other + (kChunkSize - 1)) / kChunkSize))
    (mine : (s.pool slab).chunks.length =
      max 1 ((max (s.peak slab) ((held s.live slab).length + 1) + (kChunkSize - 1)) / kChunkSize)) : Grown (s.take slab size) := by
  intro other
  rw [held_take]
  unfold CoroutinePool.take
  dsimp only
  by_cases here : other = slab
  · rw [here,if_pos rfl,Function.update_self,Function.update_self,Nat.add_comm 1]
    exact ⟨Nat.le_max_right _ _,mine⟩
  · rw [if_neg here,Function.update_of_ne here,Function.update_of_ne here,Nat.zero_add]
    exact elsewhere other here

theorem allocateChunk_mine (s : CoroutinePool) (slab : Slab) (mem : Nat) :
    (s.allocateChunk slab mem).pool slab = ((s.pool slab).allocateChunk slab.N s.next mem).1 := Function.update_self ..

theorem allocateChunk_other (s : CoroutinePool) (mem : Nat) {other : Slab} (apart : other ≠ slab) :
    (s.allocateChunk slab mem).pool other = s.pool other := Function.update_of_ne apart ..

theorem allocateChunk_head (s : CoroutinePool) (slab : Slab) (mem : Nat) (real : 0 < mem) :
    ((s.allocateChunk slab mem).pool slab).freeList ≠ 0 := by
  rw [allocateChunk_mine]
  dsimp only [FixedBlockPool.allocateChunk,kChunkSize,link]
  omega

theorem allocateChunk_chunks (s : CoroutinePool) (slab : Slab) (mem : Nat) (other : Slab) :
    ((s.allocateChunk slab mem).pool other).chunks.length = (s.pool other).chunks.length + if slab = other then 1 else 0 := by
  by_cases here : slab = other
  · rw [← here,allocateChunk_mine,if_pos rfl]
    exact List.length_append
  · rw [allocateChunk_other s mem (Ne.symm here),if_neg here]
    rfl

theorem Kept.allocate (old : Kept s) (size : Nat) : Kept (s.allocate size) := by
  obtain ⟨⟨chains,laid⟩,grown,_⟩ := old
  cases found : slabOf size with
  | none =>
    rw [allocate_global found]
    exact ⟨⟨chains,laid.linked,laid.whole,laid.once,laid.inside,laid.sized,laid.freed,laid.counted⟩,grown,found⟩
  | some slab =>
    rw [allocate_slab found]
    unfold allocateFrom
    split
    · rename_i empty
      exact ⟨⟨chains,laid.call _⟩,grown,found,empty⟩
    · rename_i free
      obtain ⟨nodes,first,next⟩ := laid.take free found
      refine ⟨⟨_,next⟩,.take (fun other _ => grown other) ?_,trivial⟩
      have count := laid.count slab
      obtain ⟨most,chunks⟩ := grown slab
      rw [first,List.length_cons] at count
      unfold kChunkSize at *
      omega

theorem Kept.operatorNew (old : Kept s) (taken : s.operatorNew p = some after) : Kept after := by
  obtain ⟨⟨chains,laid⟩,grown,asking⟩ := old
  unfold CoroutinePool.operatorNew at taken
  split at taken
  · cases taken
  · rename_i size call
    split at taken <;> cases taken
    rename_i fresh
    rw [call] at asking
    refine ⟨⟨chains,laid.takeGlobal asking fresh⟩,fun slab => ?_,trivial⟩
    have same : held (⟨p,size,none⟩ :: s.live) slab = held s.live slab := by
      rw [held_cons,if_neg (by simp)]
      rfl
    dsimp only
    rw [same]
    exact grown slab
  · rename_i slab size call
    split at taken <;> cases taken
    rename_i fresh
    rw [call] at asking
    obtain ⟨found,empty⟩ := asking
    have new := laid.allocateChunk fresh
    obtain ⟨nodes,first,next⟩ := new.take (allocateChunk_head s slab p fresh.1) found
    refine ⟨⟨_,next⟩,.take (fun other apart => ?_) ?_,trivial⟩
    · rw [allocateChunk_other s p apart]
      exact grown other
    · have count := laid.count slab
      rw [(laid.linked slab).empty empty,List.length_nil,Nat.zero_add] at count
      obtain ⟨most,chunks⟩ := grown slab
      rw [allocateChunk_chunks,if_pos rfl]
      unfold CoroutinePool.allocateChunk
      dsimp only
      unfold kChunkSize at *
      omega

theorem take_chunks (s : CoroutinePool) (slab : Slab) (size : Nat) (other : Slab) :
    ((s.take slab size).pool other).chunks = (s.pool other).chunks := by
  unfold take
  refine (Function.forall_update_iff s.pool fun other pool => pool.chunks = (s.pool other).chunks).mpr ⟨?_,fun _ _ => rfl⟩ other
  rfl

theorem deallocateTo_chunks (s : CoroutinePool) (slab : Slab) (ptr : Nat) (other : Slab) :
    ((s.deallocateTo slab ptr).pool other).chunks = (s.pool other).chunks := by
  refine (Function.forall_update_iff s.pool fun other pool => pool.chunks = (s.pool other).chunks).mpr ⟨?_,fun _ _ => rfl⟩ other
  unfold FixedBlockPool.deallocate
  split <;> rfl

theorem Kept.deallocate (old : Kept s) (idle : s.call = .idle) (member : block ∈ s.live) :
    Kept {s.deallocate block.ptr block.size with live := s.live.erase block} := by
  obtain ⟨⟨chains,laid⟩,grown,_⟩ := old
  have fewer : ∀ slab, (held (s.live.erase block) slab).length ≤ s.peak slab := by
    intro slab
    have same := (held_erase member slab).length_eq
    rw [held_cons,List.length_append] at same
    exact Nat.le_trans (by omega) (grown slab).1
  rw [deallocate_home,laid.sized block member]
  unfold giveBack
  split
  · rename_i slab home
    refine ⟨⟨_,laid.deallocateTo member home⟩,fun other => ⟨fewer other,?_⟩,?_⟩
    · dsimp only
      rw [deallocateTo_chunks]
      exact (grown other).2
    · unfold CoroutinePool.deallocateTo
      dsimp only
      rw [idle]
      trivial
  · rename_i home
    refine ⟨⟨_,laid.deleteGlobal member home⟩,fun other => ⟨fewer other,(grown other).2⟩,?_⟩
    unfold CoroutinePool.deleteGlobal
    dsimp only
    rw [idle]
    trivial

theorem Kept.step {label : Label} (old : Kept s) (taken : machine.next s label = some after) : Kept after := by
  cases label with
  | allocate size =>
    simp only [machine,CoroutinePool.step] at taken
    split at taken <;> cases taken
    exact old.allocate size
  | operatorNew p => exact old.operatorNew taken
  | badAlloc =>
    simp only [machine,CoroutinePool.step] at taken
    split at taken <;> cases taken
    obtain ⟨⟨chains,laid⟩,grown,_⟩ := old
    exact ⟨⟨chains,laid.call .idle⟩,grown,trivial⟩
  | deallocate block =>
    simp only [machine,CoroutinePool.step] at taken
    split at taken <;> cases taken
    rename_i able
    exact old.deallocate able.1 able.2
  | write address value =>
    simp only [machine,CoroutinePool.step] at taken
    split at taken <;> cases taken
    rename_i able
    obtain ⟨⟨chains,laid⟩,grown,asking⟩ := old
    refine ⟨⟨chains,laid.write able.2 value⟩,grown,?_⟩
    dsimp only
    rw [able.1]
    trivial

theorem Laid.blank (memory : Nat → Nat) : Laid (blank memory) fun _ => [] := by
  have nothing : taken (CoroutinePool.blank memory).pool [] = 0 :=
    (congrArg (· + 0) (Finset.sum_eq_zero fun _ _ => rfl)).trans (zero_add 0)
  refine ⟨fun _ => .nil,fun _ => .refl _,?_,fun byte absent => ?_,fun _ absent => (by cases absent),fun _ => Nat.two_pow_pos 64,fun _ => rfl⟩
  · exact nothing ▸ Multiset.nodup_zero
  · exact absurd (nothing ▸ absent) (Multiset.notMem_zero byte)

-- Each constructor adds one chunk to its pool.
theorem construct_parts (mem : Slab → Nat) {slabs : List Slab} (laid : Laid s chains)
    (built : slabs.foldlM (fun (s : CoroutinePool) slab => if s.fresh ⟨mem slab,slab.N * kChunkSize⟩ then
      some (s.allocateChunk slab (mem slab)) else none) s = some after) :
    (∃ chains, Laid after chains) ∧ after.live = s.live ∧ after.call = s.call ∧ after.peak = s.peak ∧
      after.globAlloc = s.globAlloc ∧ after.globFree = s.globFree ∧
      ∀ slab, (after.pool slab).chunks.length = (s.pool slab).chunks.length + slabs.count slab := by
  induction slabs generalizing s chains with
  | nil =>
    cases Option.some.inj built
    exact ⟨⟨chains,laid⟩,rfl,rfl,rfl,rfl,rfl,fun _ => rfl⟩
  | cons slab rest ih =>
    rw [List.foldlM_cons] at built
    obtain ⟨middle,first,built⟩ := Option.bind_eq_some_iff.mp built
    split at first <;> cases first
    rename_i fresh
    obtain ⟨laid,live,call,peak,up,down,chunks⟩ := ih (laid.allocateChunk fresh) built
    refine ⟨laid,live,call,peak,up,down,fun other => ?_⟩
    rw [chunks,allocateChunk_chunks,List.count_cons,Nat.add_assoc]
    simp [Nat.add_comm]

theorem constructed (origin : machine.start s) :
    Kept s ∧ s.live = [] ∧ s.call = .idle ∧ s.globAlloc = 0 ∧ s.globFree = 0 ∧ ∀ slab, s.peak slab = 0 := by
  obtain ⟨memory,mem,built⟩ := origin
  obtain ⟨laid,live,call,peak,up,down,chunks⟩ := construct_parts mem (.blank memory) built
  refine ⟨⟨laid,fun slab => ?_,?_⟩,live,call,up,down,fun slab => congrFun peak slab⟩
  · have one : List.count slab [Slab.slab256,.slab512,.slab1k,.slab2k,.slab4k] = 1 := by cases slab <;> rfl
    rw [live,peak,chunks,one]
    exact ⟨Nat.le_refl 0,(by decide : 0 + 1 = max 1 ((0 + (kChunkSize - 1)) / kChunkSize))⟩
  · rw [call]
    trivial

structure Sound (s : CoroutinePool) : Prop where
  apart : s.live.Pairwise fun one other => Disjoint one.extent.bytes other.extent.bytes
  room : ∀ block ∈ s.live, block.size ≤ block.extent.size
  home : ∀ block ∈ s.live, s.deallocate block.ptr block.size = s.giveBack block.origin block.ptr
  counts : ∀ slab, (s.pool slab).outstanding = (held s.live slab).length
  cells : ∀ slab, ∃ chain, Linked 0 s.next (s.pool slab).freeList chain ∧
    (chain ++ held s.live slab).Perm ((s.pool slab).cells slab.N) ∧
    chain.length + (held s.live slab).length = kChunkSize * (s.pool slab).chunks.length
  growth : ∀ slab, (held s.live slab).length ≤ s.peak slab ∧
    (s.pool slab).chunks.length = max 1 ((s.peak slab + (kChunkSize - 1)) / kChunkSize)

theorem length_held_lt (laid : Laid s chains) (slab : Slab) : (held s.live slab).length < word := by
  have counted := length_le_card fun extent (member : extent ∈ blocks slab.N (held s.live slab)) => by
    obtain ⟨base,_,rfl⟩ := List.mem_map.mp member
    exact slab.positive
  have inside : covered (blocks slab.N (held s.live slab)) ≤ taken s.pool s.live := by
    refine le_trans ?_ (Laid.territory_le s slab)
    rw [← laid.bytes slab]
    exact Multiset.le_add_left _ _
  have below := card_below (Nat.two_pow_pos 64) laid.once laid.inside
  rw [show (blocks slab.N (held s.live slab)).length = (held s.live slab).length from List.length_map _] at counted
  exact Nat.lt_of_le_of_lt (Nat.le_trans counted (Multiset.card_le_card inside)) below

theorem Kept.sound (old : Kept s) : Sound s := by
  obtain ⟨⟨chains,laid⟩,grown,_⟩ := old
  refine ⟨?_,fun block member => ?_,fun block member => ?_,fun slab => ?_,fun slab => ?_,grown⟩
  · have once : (covered (s.live.map Block.extent)).Nodup := by
      refine Multiset.nodup_of_le ?_ laid.once
      rw [covered_live]
      refine add_le_add (Finset.sum_le_sum fun slab _ => ?_) (le_refl _)
      rw [show covered ((s.pool slab).regions slab.N) = _ from (laid.bytes slab).symm]
      exact Multiset.le_add_left _ _
    have pairwise := pairwise_of_nodup once
    rw [List.pairwise_map] at pairwise
    exact pairwise
  · have chosen := laid.sized block member
    unfold Block.extent
    cases home : block.origin with
    | none => exact Nat.le_refl _
    | some slab => exact slabOf_fits (chosen.trans home)
  · rw [deallocate_home,laid.sized block member]
  · exact (mod_difference (laid.freed slab) (laid.counted slab)).trans (Nat.mod_eq_of_lt (length_held_lt laid slab))
  · exact ⟨chains slab,laid.linked slab,laid.whole slab,laid.count slab⟩

-- A pool gets a chunk only when it has no free block.
def AddsLate (s : CoroutinePool) (label : Label) : Prop := ∀ after, machine.next s label = some after →
  ∀ slab, (after.pool slab).chunks ≠ (s.pool slab).chunks → (s.pool slab).freeList = 0

theorem Kept.late (old : Kept s) (label : Label) : AddsLate s label := by
  intro after taken other added
  cases label with
  | allocate size =>
    simp only [machine,CoroutinePool.step] at taken
    split at taken <;> cases taken
    cases found : slabOf size with
    | none =>
      rw [allocate_global found] at added
      exact absurd rfl added
    | some slab =>
      rw [allocate_slab found] at added
      unfold allocateFrom at added
      split at added
      · exact absurd rfl added
      · exact absurd (take_chunks s slab size other) added
  | operatorNew p =>
    simp only [machine,CoroutinePool.step] at taken
    unfold CoroutinePool.operatorNew at taken
    split at taken
    · cases taken
    · split at taken <;> cases taken
      exact absurd rfl added
    · rename_i slab size call
      split at taken <;> cases taken
      have asking := old.asking
      rw [call] at asking
      by_cases here : other = slab
      · rw [here]
        exact asking.2
      · rw [take_chunks,allocateChunk_other s p here] at added
        exact absurd rfl added
  | badAlloc =>
    simp only [machine,CoroutinePool.step] at taken
    split at taken <;> cases taken
    exact absurd rfl added
  | deallocate block =>
    simp only [machine,CoroutinePool.step] at taken
    split at taken <;> cases taken
    rw [deallocate_home] at added
    unfold giveBack at added
    split at added
    · exact absurd (deallocateTo_chunks s _ block.ptr other) added
    · exact absurd rfl added
  | write address value =>
    simp only [machine,CoroutinePool.step] at taken
    split at taken <;> cases taken
    exact absurd rfl added

-- The peak is the largest number of blocks that were out so far.
def Records (s : CoroutinePool) (label : Label) : Prop := ∀ after, machine.next s label = some after →
  ∀ slab, after.peak slab = max (s.peak slab) (held after.live slab).length

theorem take_peak (s : CoroutinePool) (slab : Slab) (size : Nat) (most : ∀ slab, (held s.live slab).length ≤ s.peak slab) (other : Slab) :
    (s.take slab size).peak other = max (s.peak other) (held (s.take slab size).live other).length := by
  rw [held_take]
  unfold take
  dsimp only
  by_cases here : other = slab
  · rw [here,Function.update_self,if_pos rfl,Nat.add_comm 1]
  · rw [Function.update_of_ne here,if_neg here,Nat.zero_add,Nat.max_eq_left (most other)]

theorem Kept.records (old : Kept s) (label : Label) : Records s label := by
  intro after taken other
  -- where no block is handed out the peak stays above all that are out
  have stays : after.peak = s.peak → after.peak other = max (s.peak other) (held after.live other).length := by
    intro same
    have most := ((old.step taken).grown other).1
    rw [same] at most ⊢
    exact (Nat.max_eq_left most).symm
  have most := fun slab => (old.grown slab).1
  cases label with
  | allocate size =>
    simp only [machine,CoroutinePool.step] at taken
    split at taken <;> cases taken
    cases found : slabOf size with
    | none =>
      rw [allocate_global found] at stays ⊢
      exact stays rfl
    | some slab =>
      rw [allocate_slab found] at stays ⊢
      unfold allocateFrom at stays ⊢
      split
      · rename_i empty
        rw [if_pos empty] at stays
        exact stays rfl
      · exact take_peak s slab size most other
  | operatorNew p =>
    simp only [machine,CoroutinePool.step] at taken
    unfold CoroutinePool.operatorNew at taken
    split at taken
    · cases taken
    · split at taken <;> cases taken
      exact stays rfl
    · rename_i slab size call
      split at taken <;> cases taken
      exact take_peak (s.allocateChunk slab p) slab size most other
  | deallocate block =>
    simp only [machine,CoroutinePool.step] at taken
    split at taken <;> cases taken
    refine stays ?_
    rw [deallocate_home]
    unfold giveBack
    split <;> rfl
  | badAlloc | write address value =>
    simp only [machine,CoroutinePool.step] at taken
    split at taken <;> cases taken
    exact stays rfl

-- The blocks of users that came from the global heap.
def bigs (live : List Block) : Nat := (live.filter (4096 < ·.size)).length

-- globAlloc() - globFree() in a size_t.
def outstanding (s : CoroutinePool) : Nat := (s.globAlloc + (word - s.globFree)) % word

def Balanced (s : CoroutinePool) : Prop := s.call = .idle → s.outstanding = bigs s.live

def Call.isLarge : Call → Bool
  | .large _ => true
  | _ => false

-- No ::operator new for a large block fails.
def Served (s : CoroutinePool) : Label → Prop
  | .badAlloc => s.call.isLarge = false
  | _ => True

instance (s : CoroutinePool) (label : Label) : Decidable (s.Served label) := by
  cases label <;> (unfold Served; infer_instance)

structure Tracked (s : CoroutinePool) : Prop where
  kept : Kept s
  freed : s.globFree < word
  counted : s.globAlloc ≡ s.globFree + (bigs s.live + s.call.isLarge.toNat) [MOD word]

theorem bigs_cons (block : Block) (live : List Block) :
    bigs (block :: live) = (if 4096 < block.size then 1 else 0) + bigs live := by
  unfold bigs
  rw [List.filter_cons]
  split <;> simp_all [Nat.add_comm]

theorem bigs_erase {live : List Block} (member : block ∈ live) : bigs live = bigs (block :: live.erase block) :=
  ((List.perm_cons_erase member).filter _).length_eq

theorem bigs_lt (laid : Laid s chains) : bigs s.live < word := by
  have same : s.live.filter (4096 < ·.size) = s.live.filter (·.origin = none) := by
    refine List.filter_congr fun block member => decide_eq_decide.mpr ?_
    rw [← laid.sized block member]
    exact slabOf_none.symm
  have large : ∀ extent ∈ global s.live, 0 < extent.size := by
    intro extent member
    obtain ⟨block,found,rfl⟩ := List.mem_map.mp member
    rw [← same] at found
    have big := of_decide_eq_true (List.mem_filter.mp found).2
    have origin := (laid.sized block (List.mem_of_mem_filter found)).symm.trans (slabOf_none.mpr big)
    unfold Block.extent
    rw [origin]
    exact Nat.zero_lt_of_lt big
  have below := card_below (Nat.two_pow_pos 64) laid.once laid.inside
  have counted := length_le_card large
  have part : covered (global s.live) ≤ taken s.pool s.live := Multiset.le_add_left _ _
  unfold bigs
  rw [same,← @List.length_map _ _ _ Block.extent]
  exact Nat.lt_of_le_of_lt (Nat.le_trans counted (Multiset.card_le_card part)) below

-- A block of a pool is not counted.
theorem counted_take (s : CoroutinePool) (found : slabOf size = some slab) (counted : s.globAlloc ≡ s.globFree + bigs s.live [MOD word]) :
    (s.take slab size).globAlloc ≡ (s.take slab size).globFree + bigs (s.take slab size).live [MOD word] := by
  have few : ¬4096 < size := fun big => by cases found.symm.trans (slabOf_none.mpr big)
  unfold take
  rw [bigs_cons,if_neg few,Nat.zero_add]
  exact counted

namespace Tracked

theorem started (origin : machine.start s) : Tracked s := by
  obtain ⟨kept,live,call,up,down,_⟩ := constructed origin
  refine ⟨kept,?_,?_⟩
  · rw [down]
    exact Nat.two_pow_pos 64
  · rw [up,down,live,call]
    rfl

theorem balanced (old : Tracked s) : Balanced s := by
  intro idle
  obtain ⟨chains,laid⟩ := old.kept.laid
  have counted := old.counted
  rw [idle] at counted
  exact (mod_difference old.freed counted).trans (Nat.mod_eq_of_lt (bigs_lt laid))

theorem allocate (old : Tracked s) (idle : s.call = .idle) (kept : Kept (s.allocate size)) : Tracked (s.allocate size) := by
  have counted := old.counted
  rw [idle] at counted
  cases found : slabOf size with
  | none =>
    rw [allocate_global found] at kept ⊢
    exact ⟨kept,old.freed,(Nat.mod_modEq _ _).trans (counted.add_right 1)⟩
  | some slab =>
    rw [allocate_slab found] at kept ⊢
    unfold allocateFrom at kept ⊢
    split at kept
    · rename_i empty
      rw [if_pos empty]
      exact ⟨kept,old.freed,counted⟩
    · rename_i free
      rw [if_neg free]
      exact ⟨kept,old.freed,counted_take s found counted⟩

theorem operatorNew (old : Tracked s) (taken : s.operatorNew p = some after) (kept : Kept after) : Tracked after := by
  have counted := old.counted
  have asking := old.kept.asking
  unfold CoroutinePool.operatorNew at taken
  split at taken
  · cases taken
  · rename_i size call
    split at taken <;> cases taken
    rw [call] at asking counted
    refine ⟨kept,old.freed,?_⟩
    dsimp only
    rw [bigs_cons,if_pos (slabOf_none.mp asking),Nat.add_comm 1]
    exact counted
  · rename_i slab size call
    split at taken <;> cases taken
    rw [call] at asking counted
    exact ⟨kept,old.freed,counted_take (s.allocateChunk slab p) asking.1 counted⟩

theorem deallocate (old : Tracked s) (idle : s.call = .idle) (member : block ∈ s.live)
    (kept : Kept {s.deallocate block.ptr block.size with live := s.live.erase block}) :
    Tracked {s.deallocate block.ptr block.size with live := s.live.erase block} := by
  obtain ⟨chains,laid⟩ := old.kept.laid
  have chosen := laid.sized block member
  have counted := old.counted
  rw [idle,bigs_erase member,bigs_cons] at counted
  rw [deallocate_home] at kept ⊢
  unfold giveBack at kept ⊢
  cases found : slabOf block.size with
  | some slab =>
    rw [found] at kept
    have few : ¬4096 < block.size := fun big => by cases found.symm.trans (slabOf_none.mpr big)
    rw [if_neg few,Nat.zero_add] at counted
    refine ⟨kept,old.freed,?_⟩
    dsimp only [CoroutinePool.deallocateTo]
    rw [idle]
    exact counted
  | none =>
    rw [found] at kept
    rw [if_pos (slabOf_none.mp found),Nat.add_assoc 1,← Nat.add_assoc s.globFree] at counted
    refine ⟨kept,Nat.mod_lt _ (Nat.two_pow_pos 64),?_⟩
    dsimp only [CoroutinePool.deleteGlobal]
    rw [idle]
    exact counted.trans ((Nat.mod_modEq _ _).symm.add_right _)

theorem step {label : Label} (old : Tracked s) (served : Served s label) (taken : machine.next s label = some after) :
    Tracked after := by
  have kept := old.kept.step taken
  cases label with
  | allocate size =>
    simp only [machine,CoroutinePool.step] at taken
    split at taken <;> cases taken
    rename_i idle
    exact old.allocate idle kept
  | operatorNew p => exact old.operatorNew taken kept
  | badAlloc =>
    simp only [machine,CoroutinePool.step] at taken
    split at taken <;> cases taken
    have counted := old.counted
    rw [show s.call.isLarge = false from served] at counted
    exact ⟨kept,old.freed,counted⟩
  | deallocate block =>
    simp only [machine,CoroutinePool.step] at taken
    split at taken <;> cases taken
    rename_i able
    exact old.deallocate able.1 able.2 kept
  | write address value =>
    simp only [machine,CoroutinePool.step] at taken
    split at taken <;> cases taken
    exact ⟨kept,old.freed,old.counted⟩

-- A large block that does not come stays counted.
theorem forgets {label : Label} (old : Tracked s) (missed : ¬Served s label) (taken : machine.next s label = some after) :
    ¬Balanced after := by
  cases label with
  | badAlloc =>
    simp only [machine,CoroutinePool.step] at taken
    split at taken <;> cases taken
    obtain ⟨chains,laid⟩ := old.kept.laid
    have counted := old.counted
    rw [show s.call.isLarge = true from Bool.of_not_eq_false missed] at counted
    intro balanced
    have same := (mod_difference old.freed counted).symm.trans (balanced rfl)
    have below := bigs_lt laid
    dsimp only [Bool.toNat_true] at same
    unfold word at *
    omega
  | _ => exact absurd trivial missed

end Tracked

theorem blocks_accounted_iff_served {labels : List Label} {final : CoroutinePool} (origin : machine.start s)
    (ran : machine.run s labels = some final) :
    (∀ slab, s.peak slab = 0) ∧ machine.Throughout Sound s labels ∧
    machine.Meets (fun s label => AddsLate s label ∧ Records s label) s labels ∧
    (machine.Throughout (fun s => Sound s ∧ Balanced s) s labels ↔ machine.Meets Served s labels) := by
  have tracked : Tracked s := .started origin
  have anything : machine.Meets (fun _ _ => True) s labels := Machine.meets_labels fun _ _ _ => trivial
  obtain ⟨_,_,_,_,_,peak⟩ := constructed origin
  refine ⟨peak,?_,?_,?_⟩
  · exact Machine.throughout_of_meets (fun _ => Kept.sound) (fun _ _ _ old _ => old.step) tracked.kept anything
  · exact Machine.meets_of_meets (fun _ _ _ old _ => old.step) (fun _ label _ old _ _ => ⟨old.late label,old.records label⟩) tracked.kept ran anything
  · exact Machine.throughout_iff_meets (fun _ old => ⟨old.kept.sound,old.balanced⟩) (fun _ _ _ => Tracked.step)
      (fun _ _ _ old missed taken good => old.forgets missed taken good.2) tracked ran

-- Where ::operator new puts the first chunk of each pool.
def firstChunks : Slab → Nat
  | .slab256 => 0x10000
  | .slab512 => 0x20000
  | .slab1k => 0x40000
  | .slab2k => 0x80000
  | .slab4k => 0x100000

-- A block of a pool, one of the heap, a write into the first, and both back.
def mixedSizes : List Label :=
  [.allocate 300,.allocate 5000,.operatorNew 0x200000,.write 0x27e08 7,.deallocate ⟨0x27e00,300,some .slab512⟩,
    .deallocate ⟨0x200000,5000,none⟩]

theorem mixed_sizes_accounted : ∃ s, construct (fun _ => 0) firstChunks = some s ∧
    machine.Throughout (fun s => Sound s ∧ Balanced s) s mixedSizes ∧ machine.Throughout Sound s mixedSizes ∧
    machine.Meets (fun s label => AddsLate s label ∧ Records s label) s mixedSizes := by
  have found : ((construct (fun _ => 0) firstChunks).bind fun s => (machine.run s mixedSizes).map fun after =>
      (decide (machine.Meets Served s mixedSizes),after.live)) = some (true,[]) := by decide +kernel
  obtain ⟨s,built,ends⟩ := Option.bind_eq_some_iff.mp found
  obtain ⟨final,ran,parts⟩ := Option.map_eq_some_iff.mp ends
  have served := of_decide_eq_true (Prod.mk.inj parts).1
  obtain ⟨_,sound,late,accounted⟩ := blocks_accounted_iff_served ⟨_,_,built⟩ ran
  exact ⟨s,built,accounted.mpr served,sound,late⟩

-- No ::operator new gives 2^63 bytes.
def tooMuch : List Label := [.allocate (2 ^ 63),.badAlloc]

theorem failed_request_stays_counted : ∃ s final, construct (fun _ => 0) firstChunks = some s ∧
    machine.run s tooMuch = some final ∧ final.globAlloc = 1 ∧ final.globFree = 0 ∧ final.live = [] ∧
    ¬machine.Throughout (fun s => Sound s ∧ Balanced s) s tooMuch := by
  have found : ((construct (fun _ => 0) firstChunks).bind fun s => (machine.run s tooMuch).map fun final =>
      (final.globAlloc,final.globFree,final.live,final.call)) = some (1,0,[],.idle) := by decide +kernel
  obtain ⟨s,built,ends⟩ := Option.bind_eq_some_iff.mp found
  obtain ⟨final,ran,parts⟩ := Option.map_eq_some_iff.mp ends
  simp only [Prod.mk.injEq] at parts
  obtain ⟨up,down,live,idle⟩ := parts
  refine ⟨s,final,built,ran,up,down,live,fun through => ?_⟩
  have balanced := (through.last ran).2 idle
  unfold outstanding at balanced
  rw [up,down,live] at balanced
  exact absurd balanced (by decide)

end NewMuduo.CoroutinePool
