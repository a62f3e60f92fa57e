import NewMuduo.MemPoolBlocks
import NewMuduo.Ring

namespace NewMuduo.MemPool
open Extent
variable {s after : MemPool} {n p : Nat}

-- totalAllocated() - totalFreed() in a size_t.
def outstanding (s : MemPool) : Nat := (s.totalAllocated + (word - s.totalFreed)) % word

def liveBytes (s : MemPool) : Nat := (s.live.map (·.2)).sum

def Balanced (s : MemPool) : Prop := s.call = .idle → s.outstanding = s.liveBytes

-- What allocate has counted before ::operator new has returned.
def Call.pending : Call → Nat
  | .large n => n
  | _ => 0

def Call.isLarge : Call → Bool
  | .large _ => true
  | _ => false

def Call.isChunk : Call → Bool
  | .chunk _ => true
  | _ => false

def Sized : Label → Prop
  | .allocate n => n < word
  | _ => True

-- refill returns no block, and no large block that was counted fails to come.
def Counted (s : MemPool) : Label → Prop
  | .allocate n => n ≤ kMaxBytes → s.freeList (freeListIndex n) = 0 → s.endFree - s.startFree < roundUp n
  | .operatorNew _ => s.call.isChunk = false
  | .badAlloc => s.call.isLarge = false
  | _ => True

instance (s : MemPool) (label : Label) : Decidable (s.Counted label) := by
  cases label <;> (unfold Counted; infer_instance)

instance (label : Label) : Decidable (Sized label) := by
  cases label <;> (unfold Sized; infer_instance)

-- A pool that has carved no block yet.
structure Uncarved (s : MemPool) : Prop where
  lists : ∀ i, s.freeList i = 0
  range : s.startFree = s.endFree
  users : ∀ block ∈ s.live, kMaxBytes < block.2 ∧ 0 < block.1 ∧ block.1 + block.2 ≤ word
  once : (covered (large s.live)).Nodup
  wanted : ∀ n, s.call = .large n → kMaxBytes < n ∧ n < word
  asked : ∀ n, s.call = .chunk n → Small n
  freed : s.totalFreed < word
  balance : s.totalAllocated ≡ s.totalFreed + (s.liveBytes + s.call.pending) [MOD word]

theorem large_card {live : List (Nat × Nat)} (many : ∀ block ∈ live, kMaxBytes < block.2) :
    (covered (large live)).card = (live.map (·.2)).sum := by
  induction live with
  | nil => rfl
  | cons block rest ih =>
    obtain ⟨p,n⟩ := block
    rw [large_cons (many _ List.mem_cons_self),Multiset.card_add,card_bytes,List.map_cons,List.sum_cons]
    exact congrArg _ (ih fun other later => many other (List.mem_cons_of_mem _ later))

-- Requests too large to fit beside each other cannot all be live.
theorem Uncarved.small (old : Uncarved s) : s.liveBytes < word := by
  unfold liveBytes
  rw [← large_card fun block member => (old.users block member).1]
  refine card_below (Nat.two_pow_pos 64) old.once fun byte member => ?_
  obtain ⟨extent,listed,inside⟩ := mem_covered.mp member
  obtain ⟨block,found,rfl⟩ := List.mem_map.mp listed
  obtain ⟨many,real,below⟩ := old.users block (List.mem_of_mem_filter found)
  have here := mem_bytes.mp inside
  unfold granted at here
  rw [if_pos many] at here
  dsimp only at here
  omega

-- The counters say what is live and what is on its way.
theorem Uncarved.outstanding (old : Uncarved s) : s.outstanding = (s.liveBytes + s.call.pending) % word :=
  mod_difference old.freed old.balance

theorem Uncarved.balanced (old : Uncarved s) : Balanced s := by
  intro idle
  rw [old.outstanding,idle]
  exact Nat.mod_eq_of_lt old.small

theorem Uncarved.started (memory : Nat → Nat) : Uncarved (empty memory) :=
  ⟨fun _ => rfl,rfl,fun _ absent => (by cases absent),Multiset.nodup_zero,fun _ absent => (by cases absent),
    fun _ absent => (by cases absent),Nat.two_pow_pos 64,rfl⟩

-- With nothing in the range chunkAlloc goes on to ::operator new.
theorem refill_asks (range : s.startFree = s.endFree) (small : Small n) : s.refill n = {s with call := .chunk n} := by
  have positive : 0 < roundUp n := Nat.lt_of_lt_of_le small.some small.fits.1
  have none : s.endFree - s.startFree = 0 := by
    rw [range,Nat.sub_self]
  unfold refill chunkAlloc
  dsimp only
  rw [none,if_neg (by omega),if_neg (by omega),if_neg (Nat.lt_irrefl 0)]

theorem Uncarved.allocate (old : Uncarved s) (idle : s.call = .idle) (some : 1 ≤ n) (sized : n < word) : Uncarved (s.allocate n) := by
  have balance := old.balance
  rw [idle] at balance
  unfold MemPool.allocate
  dsimp only
  split
  · rename_i many
    refine ⟨old.lists,old.range,old.users,old.once,fun m same => ?_,fun _ absent => (by cases absent),old.freed,?_⟩
    · cases same
      exact ⟨many,sized⟩
    · have counted := balance.add_right n
      rw [Nat.add_assoc] at counted
      exact (Nat.mod_modEq _ _).trans counted
  · rename_i few
    have small : Small n := ⟨some,Nat.le_of_not_lt few⟩
    rw [if_pos (old.lists _),refill_asks old.range small]
    refine ⟨old.lists,old.range,old.users,old.once,fun _ absent => (by cases absent),fun m same => ?_,old.freed,balance⟩
    cases same
    exact small

theorem Uncarved.takeLarge (old : Uncarved s) (call : s.call = .large n) (fresh : s.fresh ⟨p,n⟩) :
    Uncarved {s with call := .idle,live := (p,n) :: s.live} := by
  have many := (old.wanted n call).1
  refine ⟨old.lists,old.range,fun block member => ?_,?_,fun _ absent => (by cases absent),fun _ absent => (by cases absent),old.freed,?_⟩
  · rcases List.mem_cons.mp member with rfl | before
    · exact ⟨many,fresh.1,fresh.2.2.1⟩
    · exact old.users block before
  · rw [large_cons many,Multiset.nodup_add]
    exact ⟨bytes_nodup _,old.once,(Multiset.disjoint_add_right.mp fresh.disjoint).2⟩
  · have balance := old.balance
    rw [call,Nat.add_comm s.liveBytes] at balance
    exact balance

theorem liveBytes_erase (member : (p,n) ∈ s.live) : s.liveBytes = n + ((s.live.erase (p,n)).map (·.2)).sum :=
  ((List.perm_cons_erase member).map Prod.snd).sum_eq

theorem Uncarved.deallocate (old : Uncarved s) (idle : s.call = .idle) (member : (p,n) ∈ s.live) : Uncarved (s.deallocate p n) := by
  have many := (old.users _ member).1
  have balance := old.balance
  have freed := old.freed
  have whole := liveBytes_erase member
  have once := old.once
  rw [large_erase member,large_cons many,Multiset.nodup_add] at once
  unfold MemPool.deallocate
  dsimp only
  rw [if_pos many]
  refine ⟨old.lists,old.range,fun block there => old.users block (List.mem_of_mem_erase there),once.2.1,?_,?_,Nat.mod_lt _ (Nat.two_pow_pos 64),?_⟩
  · exact fun m call => by cases idle.symm.trans call
  · exact fun m call => by cases idle.symm.trans call
  · rw [idle,whole,Nat.add_assoc n,← Nat.add_assoc s.totalFreed] at balance
    rw [idle]
    exact balance.trans ((Nat.mod_modEq _ _).symm.add_right _)

theorem Uncarved.step {label : Label} (old : Uncarved s) (sized : Sized label) (counted : Counted s label)
    (taken : machine.next s label = some after) : Uncarved after := by
  cases label with
  | allocate n =>
    simp only [machine,MemPool.step] at taken
    split at taken <;> cases taken
    rename_i able
    exact old.allocate able.1 able.2 sized
  | operatorNew p =>
    simp only [machine,MemPool.step] at taken
    unfold MemPool.operatorNew at taken
    split at taken
    · cases taken
    · rename_i n call
      split at taken <;> cases taken
      rename_i fresh
      exact old.takeLarge call fresh
    · rename_i n call
      unfold Counted at counted
      rw [call] at counted
      cases counted
  | badAlloc =>
    simp only [machine,MemPool.step] at taken
    split at taken <;> cases taken
    have balance := old.balance
    refine ⟨old.lists,old.range,old.users,old.once,fun _ absent => (by cases absent),fun _ absent => (by cases absent),old.freed,?_⟩
    unfold Counted at counted
    cases call : s.call with
    | large n => rw [call] at counted; cases counted
    | _ => rw [call] at balance; exact balance
  | deallocate p n =>
    simp only [machine,MemPool.step] at taken
    split at taken <;> cases taken
    rename_i able
    exact old.deallocate able.1 able.2
  | write address value =>
    simp only [machine,MemPool.step] at taken
    split at taken <;> cases taken
    exact ⟨old.lists,old.range,old.users,old.once,old.wanted,old.asked,old.freed,old.balance⟩

-- refill hands a block out that no counter knows.
theorem Uncarved.carves (old : Uncarved s) (call : s.call = .chunk n) (taken : s.operatorNew p = some after) : ¬Balanced after := by
  have small := old.asked n call
  have balance := old.outstanding
  rw [call] at balance
  unfold MemPool.operatorNew at taken
  rw [call] at taken
  dsimp only at taken
  split at taken <;> cases taken
  have enough : roundUp n * 20 ≤ p + s.bytesToGet (roundUp n) 20 - p := by
    unfold bytesToGet
    omega
  unfold MemPool.refill chunkAlloc
  dsimp only
  rw [if_pos enough]
  intro balanced
  have more : s.outstanding = n + s.liveBytes := balanced rfl
  have less := old.small
  have some := small.some
  have pending : (Call.chunk n).pending = 0 := rfl
  rw [more,pending,Nat.add_zero,Nat.mod_eq_of_lt less] at balance
  omega

theorem Uncarved.forgets (old : Uncarved s) (call : s.call = .large n) : ¬Balanced {s with call := .idle} := by
  obtain ⟨many,sized⟩ := old.wanted n call
  have balance := old.outstanding
  have small := old.small
  rw [call] at balance
  intro balanced
  have same : s.outstanding = s.liveBytes := balanced rfl
  have pending : (Call.large n).pending = n := rfl
  have none : s.liveBytes + n ≡ s.liveBytes + 0 [MOD word] := by
    rw [same,pending] at balance
    exact (balance.symm.trans (Nat.mod_eq_of_lt small).symm)
  have divides := Nat.ModEq.add_left_cancel' _ none
  rw [Nat.ModEq,Nat.mod_eq_of_lt sized,Nat.zero_mod] at divides
  omega

-- Each step that misses the condition leaves the counters wrong.
theorem Uncarved.broken {label : Label} (old : Uncarved s) (missed : ¬Counted s label) (taken : machine.next s label = some after) :
    ¬Balanced after := by
  unfold Counted at missed
  cases label with
  | allocate n =>
    refine absurd (fun few _ => ?_) missed
    simp only [machine,MemPool.step] at taken
    split at taken <;> cases taken
    rename_i able
    have small : Small n := ⟨able.2,few⟩
    rw [old.range,Nat.sub_self]
    exact Nat.lt_of_lt_of_le small.some small.fits.1
  | operatorNew p =>
    cases call : s.call with
    | chunk n => exact old.carves call taken
    | _ => rw [call] at missed; exact absurd rfl missed
  | badAlloc =>
    simp only [machine,MemPool.step] at taken
    split at taken <;> cases taken
    cases call : s.call with
    | large n => exact old.forgets call
    | _ => rw [call] at missed; exact absurd rfl missed
  | deallocate | write => exact absurd trivial missed

theorem balanced_iff_counted {memory : Nat → Nat} {labels : List Label} {final : MemPool}
    (ran : machine.run (empty memory) labels = some final) (sized : ∀ label ∈ labels, Sized label) :
    machine.Throughout Balanced (empty memory) labels ↔ machine.Meets Counted (empty memory) labels := by
  have given : machine.Meets (fun _ => Sized) (empty memory) labels := Machine.meets_labels fun label member _ => sized label member
  exact Machine.throughout_iff_meets_given (fun _ => Uncarved.balanced) (fun _ _ _ => Uncarved.step)
    (fun _ _ _ old _ => old.broken) (.started memory) ran given

-- Two large blocks, one given back, and a small request that fails.
def largeOnes : List Label :=
  [.allocate 300,.operatorNew 4096,.allocate 16,.badAlloc,.allocate 1000,.operatorNew 8192,.deallocate 4096 300]

theorem large_ones_balanced : machine.Throughout Balanced (empty fun _ => 0) largeOnes := by
  have ran : machine.run (empty fun _ => 0) largeOnes = some _ := rfl
  exact (balanced_iff_counted ran (by decide +kernel)).mpr (by decide +kernel)

-- The first block refill returns is live, and no counter knows it.
theorem first_block_uncounted : ∃ s, machine.run (empty fun _ => 0) [.allocate 16,.operatorNew 4096] = some s ∧
    s.live = [(4096,16)] ∧ s.totalAllocated = 0 ∧ s.totalFreed = 0 ∧
    ¬machine.Throughout Balanced (empty fun _ => 0) [.allocate 16,.operatorNew 4096] := by
  refine ⟨_,rfl,rfl,rfl,rfl,fun through => ?_⟩
  have balanced := (through.2 _ rfl).2 _ rfl
  exact absurd (balanced rfl) (by decide +kernel)

end NewMuduo.MemPool
