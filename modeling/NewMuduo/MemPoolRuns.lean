import NewMuduo.MemPoolBlocks

namespace NewMuduo.MemPool
open Extent
variable {s after : MemPool} {chains : Nat → List Nat} {n p : Nat}

-- Where ::operator new fails, chunkAlloc had no leftover.
def Contained (s : MemPool) : Label → Prop
  | .badAlloc => ∀ n, s.call = .chunk n → s.startFree = s.endFree
  | _ => True

theorem range_of_idle (idle : s.call = .idle) : s.range = s.remaining.bytes := by
  unfold range
  rw [idle]

theorem Kept.of_idle (idle : s.call = .idle) (laid : Laid s chains s.remaining.bytes) : Kept s := by
  refine ⟨⟨chains,?_⟩,?_⟩
  · rw [range_of_idle idle]
    exact laid
  · rw [idle]
    trivial

theorem Kept.allocate (old : Kept s) (idle : s.call = .idle) (some : 1 ≤ n) : Kept (s.allocate n) := by
  obtain ⟨⟨chains,laid⟩,_⟩ := old
  rw [range_of_idle idle] at laid
  unfold MemPool.allocate
  dsimp only
  split
  · rename_i many
    have grown : Laid {s with totalAllocated := (s.totalAllocated + n) % word} chains s.remaining.bytes :=
      ⟨laid.linked,laid.unused,laid.whole,laid.once,laid.inside,laid.counted,laid.users,laid.entries,laid.ordered,laid.placed⟩
    exact ⟨⟨chains,grown.calls (.large n)⟩,many⟩
  · rename_i few
    have small : Small n := ⟨some,Nat.le_of_not_lt few⟩
    split
    · rename_i none
      exact laid.refill small none
    · rename_i found
      obtain ⟨others,popped⟩ := laid.pop small found ((s.totalAllocated + n) % word)
      exact .of_idle idle popped

theorem bytesToGet_aligned (small : Small n) (heap : s.heapSize < word) : s.bytesToGet (roundUp n) 20 % kAlign = 0 := by
  have quarter : s.heapSize >>> 4 + 7 < word := by
    rw [Nat.shiftRight_eq_div_pow]
    unfold word at *
    omega
  have size := small.fits.2.2
  unfold bytesToGet
  rw [roundUp_eq quarter]
  unfold kAlign at *
  omega

theorem Kept.operatorNew (old : Kept s) (taken : s.operatorNew p = some after) : Kept after := by
  obtain ⟨⟨chains,laid⟩,asking⟩ := old
  unfold MemPool.operatorNew at taken
  split at taken
  · cases taken
  · rename_i n call
    split at taken <;> cases taken
    rename_i fresh
    have range : s.range = s.remaining.bytes := by
      unfold MemPool.range
      rw [call]
    rw [range] at laid
    rw [call] at asking
    exact .of_idle rfl (laid.takeLarge asking fresh)
  · rename_i n call
    rw [call] at asking
    obtain ⟨small,empty,_⟩ := asking
    dsimp only at taken
    split at taken <;> cases taken
    rename_i fresh
    have range : s.range = 0 := by
      unfold MemPool.range
      rw [call]
    rw [range] at laid
    have grown := laid.region fresh (bytesToGet_aligned small laid.heap)
    refine @Laid.refill _ chains _ ?_ small empty
    dsimp only [remaining]
    rw [Nat.add_sub_cancel_left]
    exact grown

theorem Kept.deallocate (old : Kept s) (idle : s.call = .idle) (member : (p,n) ∈ s.live) : Kept (s.deallocate p n) := by
  obtain ⟨⟨chains,laid⟩,_⟩ := old
  rw [range_of_idle idle] at laid
  unfold MemPool.deallocate
  dsimp only
  split
  · rename_i many
    exact .of_idle idle (laid.freeLarge member many ((s.totalFreed + n) % word))
  · rename_i few
    obtain ⟨others,given⟩ := laid.giveBack member (Nat.le_of_not_lt few) ((s.totalFreed + n) % word)
    exact .of_idle idle given

theorem Kept.badAlloc (old : Kept s) (contained : Contained s .badAlloc) : Kept {s with call := .idle} := by
  obtain ⟨⟨chains,laid⟩,_⟩ := old
  have range : s.range = s.remaining.bytes := by
    unfold MemPool.range
    split
    · rename_i n call
      have none : s.remaining = ⟨s.startFree,0⟩ := by
        unfold remaining
        rw [contained n call,Nat.sub_self]
      rw [none,bytes_empty]
    · rfl
  rw [range] at laid
  exact .of_idle rfl (laid.calls .idle)

theorem Kept.step {label : Label} (old : Kept s) (contained : Contained s label) (taken : machine.next s label = some after) :
    Kept after := by
  cases label with
  | allocate n =>
    simp only [machine,MemPool.step] at taken
    split at taken <;> cases taken
    rename_i able
    exact old.allocate able.1 able.2
  | operatorNew p => exact old.operatorNew taken
  | badAlloc =>
    simp only [machine,MemPool.step] at taken
    split at taken <;> cases taken
    exact old.badAlloc contained
  | deallocate p n =>
    simp only [machine,MemPool.step] at taken
    split at taken <;> cases taken
    rename_i able
    exact old.deallocate able.1 able.2
  | write address value =>
    simp only [machine,MemPool.step] at taken
    split at taken <;> cases taken
    rename_i able
    obtain ⟨⟨chains,laid⟩,_⟩ := old
    rw [range_of_idle able.1] at laid
    exact .of_idle able.1 (laid.write able.2 value)

theorem Kept.started (memory : Nat → Nat) : Kept (empty memory) := by
  have nothing : free (fun _ => []) = 0 := Finset.sum_eq_zero fun _ _ => rfl
  have laid : Laid (empty memory) (fun _ => []) (empty memory).remaining.bytes := by
    refine ⟨fun _ => .nil,fun _ _ => rfl,?_,Multiset.nodup_zero,fun _ absent => (by cases absent),rfl,fun _ absent => (by cases absent),
      fun _ _ _ absent => (by cases absent),⟨Nat.le_refl 0,rfl⟩,fun absent => absurd absent (Nat.lt_irrefl 0)⟩
    rw [nothing]
    rfl
  exact .of_idle rfl laid

-- The regions of ::operator new that are not deleted.
def regions (s : MemPool) : List Extent := s.obtained ++ large s.live

-- No byte in two of the live blocks, the entries of the free lists and the range.
def Unshared (s : MemPool) : Prop :=
  ∃ chains, (∀ i, Linked 0 s.next (s.freeList i) (chains i)) ∧ (covered (s.live.map granted) + (free chains + s.remaining.bytes)).Nodup

theorem covered_live (live : List (Nat × Nat)) : covered (live.map granted) = covered (small live) + covered (large live) := by
  induction live with
  | nil => rfl
  | cons block rest ih =>
    rw [List.map_cons,covered_cons,ih]
    unfold small large
    by_cases few : block.2 ≤ kMaxBytes
    · rw [List.filter_cons_of_pos (by simpa using few),List.filter_cons_of_neg (by simpa using few),List.map_cons,covered_cons]
      exact (add_assoc _ _ _).symm
    · rw [List.filter_cons_of_neg (by simpa using few),List.filter_cons_of_pos (by simpa using few),List.map_cons,covered_cons]
      exact add_left_comm _ _ _

theorem Laid.unshared (old : Laid s chains s.remaining.bytes) :
    (covered (s.live.map granted) + (free chains + s.remaining.bytes)).Nodup := by
  have once := old.once
  rw [← old.whole] at once
  rw [covered_live,add_right_comm]
  exact once

theorem Kept.unshared (old : Kept s) (idle : s.call = .idle) : Unshared s := by
  obtain ⟨⟨chains,laid⟩,_⟩ := old
  rw [range_of_idle idle] at laid
  exact ⟨chains,laid.linked,laid.unshared⟩

-- A leftover that stays in the range is in a free list as well.
theorem Kept.shared (old : Kept s) (missed : ¬Contained s .badAlloc) : ¬Unshared {s with call := .idle} := by
  intro unshared
  obtain ⟨others,linked,once⟩ := unshared
  obtain ⟨⟨chains,laid⟩,asking⟩ := old
  simp only [Contained] at missed
  push Not at missed
  obtain ⟨n,call,apart⟩ := missed
  rw [call] at asking
  obtain ⟨_,_,shelved⟩ := asking
  have more : s.startFree < s.endFree := Nat.lt_of_le_of_ne laid.ordered.1 apart
  obtain ⟨few,first⟩ := shelved more
  have small : Small (s.endFree - s.startFree) := ⟨Nat.sub_pos_of_lt more,Nat.le_of_lt few⟩
  have here : s.startFree ∈ s.remaining.bytes := mem_bytes.mpr ⟨Nat.le_refl _,by dsimp only [remaining]; omega⟩
  obtain ⟨_,region,member,within⟩ := laid.placed more
  have used : s.startFree ∈ covered s.obtained :=
    mem_covered.mpr ⟨region,member,mem_bytes.mpr ⟨within.1,by have := within.2; dsimp only [remaining] at this; omega⟩⟩
  have real : s.startFree ≠ 0 := Nat.ne_of_gt (laid.inside _ used).1
  have listed : s.startFree ∈ free others := by
    obtain ⟨rest,held,_⟩ := (linked (freeListIndex (s.endFree - s.startFree))).pop (by dsimp only; rw [first]; exact real)
    refine Multiset.mem_sum.mpr ⟨_,Finset.mem_range.mpr small.index,base_mem_covered (Nat.mul_pos (Nat.succ_pos _) (by decide)) ?_⟩
    rw [held]
    exact List.mem_cons.mpr (.inl first.symm)
  obtain ⟨_,rest,_⟩ := Multiset.nodup_add.mp once
  obtain ⟨_,_,disjoint⟩ := Multiset.nodup_add.mp rest
  exact Multiset.disjoint_left.mp disjoint listed here

theorem kept_of_run {memory : Nat → Nat} {labels : List Label} (ran : machine.run (empty memory) labels = some s)
    (met : machine.Meets Contained (empty memory) labels) : Kept s :=
  Machine.run_meets (fun _ _ _ old contained taken => old.step contained taken) (.started memory) met ran

theorem unshared_iff_contained {memory : Nat → Nat} {labels : List Label} {final : MemPool}
    (ran : machine.run (empty memory) labels = some final) :
    machine.Throughout (fun s => s.call = .idle → Unshared s) (empty memory) labels ↔
      machine.Meets Contained (empty memory) labels := by
  have broken : ∀ s label after, Kept s → ¬Contained s label → machine.next s label = some after → ¬(after.call = .idle → Unshared after) := by
    intro s label after old missed taken good
    cases label with
    | badAlloc =>
      simp only [machine,MemPool.step] at taken
      split at taken <;> cases taken
      exact old.shared missed (good rfl)
    | _ => exact missed trivial
  have kept : ∀ s label after, Kept s → Contained s label → machine.next s label = some after → Kept after :=
    fun _ _ _ old contained taken => old.step contained taken
  exact Machine.throughout_iff_meets (fun _ old idle => old.unshared idle) kept broken (.started memory) ran

-- ::operator new fails while there is no memory yet, then finds some.
def failsFirst : List Label := [.allocate 16,.badAlloc,.allocate 16,.operatorNew 4096]

theorem fails_first_unshared : machine.Throughout (fun s => s.call = .idle → Unshared s) (empty fun _ => 0) failsFirst := by
  have ran : machine.run (empty fun _ => 0) failsFirst = some _ := rfl
  refine (unshared_iff_contained ran).mpr ?_
  refine .cons trivial rfl ?_
  refine .cons (fun _ _ => rfl) rfl ?_
  refine .cons trivial rfl ?_
  exact ⟨trivial,fun _ _ => trivial⟩

theorem blocks_partition {memory : Nat → Nat} {labels : List Label} (ran : machine.run (empty memory) labels = some s)
    (succeeds : .badAlloc ∉ labels) (idle : s.call = .idle) :
    (s.live.Pairwise fun first second => Disjoint (granted first).bytes (granted second).bytes) ∧
    (∀ block ∈ s.live, block.1 % kAlign = 0 ∧ block.2 ≤ (granted block).size ∧ ∃ region ∈ s.regions, Within (granted block) region) ∧
    ∃ chains, (∀ i, Linked 0 s.next (s.freeList i) (chains i)) ∧
      covered (small s.live) + (free chains + s.remaining.bytes) = covered s.obtained ∧
      (covered s.regions).Nodup ∧ s.heapSize = (covered s.obtained).card := by
  have met : machine.Meets Contained (empty memory) labels := by
    refine Machine.meets_labels fun label member _ => ?_
    cases label with
    | badAlloc => exact absurd member succeeds
    | _ => trivial
  obtain ⟨⟨chains,laid⟩,_⟩ := kept_of_run ran met
  rw [range_of_idle idle] at laid
  have once := laid.once
  rw [← covered_append] at once
  refine ⟨?_,?_,chains,laid.linked,laid.whole,once,laid.counted⟩
  · have pairwise := pairwise_of_nodup (Multiset.nodup_add.mp laid.unshared).1
    rw [List.pairwise_map] at pairwise
    exact pairwise
  · intro block member
    obtain ⟨some,aligned,placed⟩ := laid.users block member
    by_cases few : block.2 ≤ kMaxBytes
    · obtain ⟨_,region,there,within⟩ := placed few
      refine ⟨aligned,?_,region,List.mem_append_left _ there,within⟩
      have small : Small block.2 := ⟨some,few⟩
      rw [granted_small small,← small.roundUp]
      exact small.fits.1
    · have many := Nat.lt_of_not_le few
      have listed : granted block ∈ large s.live := List.mem_map_of_mem (List.mem_filter.mpr ⟨member,decide_eq_true many⟩)
      refine ⟨aligned,?_,_,List.mem_append_right _ listed,.refl _⟩
      unfold granted
      rw [if_pos many]

-- Requests of three sizes: the second finds 320 bytes for one block, and the
-- third leaves 64 for the list of the fourth.
def threeSizes : List Label :=
  [.allocate 16,.operatorNew 4096,.allocate 256,.allocate 256,.operatorNew 8192,.allocate 64,.deallocate 4096 16]

theorem three_sizes_partition : ∃ s, machine.run (empty fun _ => 0) threeSizes = some s ∧
    s.live = [(4672,64),(8192,256),(4416,256)] ∧
    (s.live.Pairwise fun first second => Disjoint (granted first).bytes (granted second).bytes) ∧
    s.heapSize = 10920 ∧ (covered s.obtained).card = 10920 := by
  have found : ((machine.run (empty fun _ => 0) threeSizes).map fun s => (s.live,s.heapSize,s.call)) =
      some ([(4672,64),(8192,256),(4416,256)],10920,.idle) := by
    decide +kernel
  obtain ⟨s,ran,here⟩ := Option.map_eq_some_iff.mp found
  simp only [Prod.mk.injEq] at here
  obtain ⟨live,heap,idle⟩ := here
  obtain ⟨pairwise,_,chains,_,_,_,counted⟩ := blocks_partition ran (by decide) idle
  exact ⟨s,ran,live,pairwise,heap,counted.symm.trans heap⟩

-- ::operator new fails when 64 bytes are left; then the list and the range
-- hand out the same block.
def failsOnce : List Label :=
  [.allocate 16,.operatorNew 4096,.allocate 256,.allocate 256,.badAlloc,.allocate 64,.allocate 8]

theorem same_block_twice : ∃ s, machine.run (empty fun _ => 0) failsOnce = some s ∧ s.call = .idle ∧
    (4672,64) ∈ s.live ∧ (4672,8) ∈ s.live ∧ ¬Unshared s := by
  have found : ((machine.run (empty fun _ => 0) failsOnce).map fun s => (s.live,s.call)) =
      some ([(4672,8),(4672,64),(4416,256),(4096,16)],.idle) := by
    decide +kernel
  obtain ⟨s,ran,here⟩ := Option.map_eq_some_iff.mp found
  simp only [Prod.mk.injEq] at here
  obtain ⟨live,idle⟩ := here
  refine ⟨s,ran,idle,by simp [live],by simp [live],fun unshared => ?_⟩
  obtain ⟨chains,_,once⟩ := unshared
  have pairwise := pairwise_of_nodup (Multiset.nodup_add.mp once).1
  rw [live] at pairwise
  have apart := (List.pairwise_cons.mp pairwise).1 (granted (4672,64)) (List.mem_cons_self)
  exact Multiset.disjoint_left.mp apart (mem_bytes.mpr ⟨Nat.le_refl _,by decide⟩) (mem_bytes.mpr ⟨Nat.le_refl _,by decide⟩)

end NewMuduo.MemPool
