import NewMuduo.MemPool
import NewMuduo.Linked
import Mathlib.Tactic.Abel

namespace NewMuduo.MemPool
open Extent
variable {s after : MemPool} {chains : Nat → List Nat} {n p address : Nat} {left : Multiset Nat}

-- In a size_t the mask drops the last three bits.
theorem mask_eq {amount : Nat} (small : amount < word) : amount &&& (word - kAlign) = amount / 8 * 8 := by
  have mask : word - kAlign = (2 ^ 61 - 1) <<< 3 := by decide
  have shifted : amount / 8 * 8 = (amount >>> 3) <<< 3 := by
    rw [Nat.shiftRight_eq_div_pow,Nat.shiftLeft_eq]
  rw [mask,shifted]
  refine Nat.eq_of_testBit_eq fun i => ?_
  rw [Nat.testBit_and,Nat.testBit_shiftLeft,Nat.testBit_shiftLeft,Nat.testBit_two_pow_sub_one,Nat.testBit_shiftRight]
  by_cases low : 3 ≤ i
  · by_cases high : i < 64
    · have inside : i - 3 < 61 := by omega
      have same : 3 + (i - 3) = i := by omega
      simp [low,inside,same]
    · have beyond : amount.testBit i = false := Nat.testBit_lt_two_pow (Nat.lt_of_lt_of_le small (Nat.pow_le_pow_right (by decide) (Nat.le_of_not_lt high)))
      have same : 3 + (i - 3) = i := by omega
      simp [low,beyond,same]
  · simp [low]

theorem roundUp_eq {amount : Nat} (small : amount + 7 < word) : roundUp amount = (amount + 7) / 8 * 8 := mask_eq small

theorem freeListIndex_eq (amount : Nat) : freeListIndex amount = (amount + 7) / 8 - 1 := rfl

-- The classes of small blocks.
structure Small (n : Nat) : Prop where
  some : 1 ≤ n
  few : n ≤ kMaxBytes

theorem Small.word (small : Small n) : n + 7 < word := by
  have few : n ≤ 256 := small.few
  have large : (263 : Nat) < MemPool.word := by decide
  omega

theorem Small.roundUp (small : Small n) : roundUp n = (freeListIndex n + 1) * kAlign := by
  have some := small.some
  rw [roundUp_eq small.word,freeListIndex_eq]
  unfold kAlign
  omega

theorem Small.index (small : Small n) : freeListIndex n < kNumFreeLists := by
  have few : n ≤ 256 := small.few
  have lists : kNumFreeLists = 32 := rfl
  rw [freeListIndex_eq,lists]
  omega

theorem Small.index_roundUp (small : Small n) : freeListIndex (MemPool.roundUp n) = freeListIndex n := by
  rw [roundUp_eq small.word,freeListIndex_eq,freeListIndex_eq]
  omega

theorem Small.fits (small : Small n) : n ≤ MemPool.roundUp n ∧ MemPool.roundUp n ≤ kMaxBytes ∧ MemPool.roundUp n % kAlign = 0 := by
  have few : n ≤ 256 := small.few
  have most : kMaxBytes = 256 := rfl
  rw [roundUp_eq small.word,most]
  unfold kAlign
  omega

theorem granted_small (small : Small n) (p : Nat) : granted (p,n) = ⟨p,(freeListIndex n + 1) * kAlign⟩ := by
  unfold granted
  rw [if_neg (Nat.not_lt.mpr small.few),small.roundUp]

-- The bytes in the free lists, given what they hold.
def free (chains : Nat → List Nat) : Multiset Nat :=
  ∑ i ∈ Finset.range kNumFreeLists, covered (blocks ((i + 1) * kAlign) (chains i))

def remaining (s : MemPool) : Extent := ⟨s.startFree,s.endFree - s.startFree⟩

-- In ::operator new the leftover is in a free list, and the range no longer counts.
def range (s : MemPool) : Multiset Nat :=
  match s.call with
  | .chunk _ => 0
  | _ => s.remaining.bytes

def Placed (s : MemPool) (block : Extent) : Prop := block.base % kAlign = 0 ∧ ∃ region ∈ s.obtained, Within block region

-- chains is the ghost content of the free lists, fixed by the links in memory.
structure Laid (s : MemPool) (chains : Nat → List Nat) (left : Multiset Nat) : Prop where
  linked : ∀ i, Linked 0 s.next (s.freeList i) (chains i)
  unused : ∀ i, kNumFreeLists ≤ i → chains i = []
  whole : covered (small s.live) + (free chains + left) = covered s.obtained
  once : (covered s.obtained + covered (large s.live)).Nodup
  inside : ∀ byte ∈ covered s.obtained, 0 < byte ∧ byte < word
  counted : s.heapSize = (covered s.obtained).card
  users : ∀ block ∈ s.live, 1 ≤ block.2 ∧ block.1 % kAlign = 0 ∧ (block.2 ≤ kMaxBytes → Placed s (granted block))
  entries : ∀ i < kNumFreeLists, ∀ base ∈ chains i, Placed s ⟨base,(i + 1) * kAlign⟩
  ordered : s.startFree ≤ s.endFree ∧ (s.endFree - s.startFree) % kAlign = 0
  placed : s.startFree < s.endFree → Placed s s.remaining

-- The leftover is the first block of the list of its size.
def Shelved (s : MemPool) : Prop :=
  s.startFree < s.endFree → s.endFree - s.startFree < kMaxBytes ∧ s.freeList (freeListIndex (s.endFree - s.startFree)) = s.startFree

-- What ::operator new was called for.
def Asking (s : MemPool) : Call → Prop
  | .idle => True
  | .large n => kMaxBytes < n
  | .chunk n => Small n ∧ s.freeList (freeListIndex n) = 0 ∧ Shelved s

-- The pool between two steps of its user or of ::operator new.
structure Kept (s : MemPool) : Prop where
  laid : ∃ chains, Laid s chains s.range
  asking : Asking s s.call

section live
variable {live : List (Nat × Nat)}

theorem small_cons (few : Small n) (p : Nat) :
    covered (small ((p,n) :: live)) = bytes ⟨p,(freeListIndex n + 1) * kAlign⟩ + covered (small live) := by
  simp [small,few.few,granted_small few]

theorem large_cons_small (few : n ≤ kMaxBytes) (p : Nat) : covered (large ((p,n) :: live)) = covered (large live) := by
  unfold large
  rw [List.filter_cons_of_neg]
  simpa using few

theorem small_cons_large (many : kMaxBytes < n) (p : Nat) : covered (small ((p,n) :: live)) = covered (small live) := by
  unfold small
  rw [List.filter_cons_of_neg]
  simpa using many

theorem large_cons (many : kMaxBytes < n) (p : Nat) : covered (large ((p,n) :: live)) = bytes ⟨p,n⟩ + covered (large live) := by
  have whole : granted (p,n) = ⟨p,n⟩ := by
    unfold granted
    rw [if_pos many]
  simp [large,many,whole]

-- A block that is given back.
theorem small_erase (member : (p,n) ∈ live) : covered (small live) = covered (small ((p,n) :: live.erase (p,n))) :=
  covered_perm (((List.perm_cons_erase member).filter _).map _)

theorem large_erase (member : (p,n) ∈ live) : covered (large live) = covered (large ((p,n) :: live.erase (p,n))) :=
  covered_perm (((List.perm_cons_erase member).filter _).map _)

end live

theorem free_parts (below : n < kNumFreeLists) (chains : Nat → List Nat) :
    ∃ rest, ∀ bases, free (Function.update chains n bases) = covered (blocks ((n + 1) * kAlign) bases) + rest :=
  sum_update_parts (fun i bases => covered (blocks ((i + 1) * kAlign) bases)) chains (Finset.mem_range.mpr below)

-- One list changes.
theorem free_change {bases : List Nat} (below : n < kNumFreeLists) (held : chains n = bases) :
    ∃ rest, free chains = covered (blocks ((n + 1) * kAlign) bases) + rest ∧
      ∀ next, free (Function.update chains n next) = covered (blocks ((n + 1) * kAlign) next) + rest := by
  obtain ⟨rest,parts⟩ := free_parts below chains
  refine ⟨rest,?_,parts⟩
  have same := parts bases
  rw [← held,Function.update_eq_self] at same
  rw [← held]
  exact same

theorem Placed.part {outer inner : Extent} (old : Placed s outer) (aligned : inner.base % kAlign = 0) (within : Within inner outer) :
    Placed s inner := by
  obtain ⟨_,region,member,inside⟩ := old
  exact ⟨aligned,region,member,within.trans inside⟩

section link
variable {next : Nat → Nat} {current : Nat}

theorem link_other {count : Nat} (apart : address ∉ row current n (count + 1)) : link next n current count address = next address := by
  induction count generalizing next current with
  | zero =>
    rw [row,List.mem_cons,not_or] at apart
    exact Function.update_of_ne apart.1 _ _
  | succ count ih =>
    rw [row,List.mem_cons,not_or] at apart
    unfold link
    rw [ih apart.2,Function.update_of_ne apart.1]

-- The loop leaves the blocks of the row linked in order.
theorem link_linked (some : 0 < n) (real : 0 < current) (next : Nat → Nat) (count : Nat) :
    Linked 0 (link next n current count) current (row current n (count + 1)) := by
  induction count generalizing next current with
  | zero =>
    refine .cons (Nat.ne_of_gt real) ?_
    rw [link,Function.update_self]
    exact .nil
  | succ count ih =>
    have apart : current ∉ row (current + n) n (count + 1) := by
      intro member
      obtain ⟨i,_,same⟩ := mem_row member
      omega
    refine .cons (Nat.ne_of_gt real) ?_
    have here : link next n current (count + 1) current = current + n := by
      unfold link
      rw [link_other apart,Function.update_self]
    rw [here]
    exact ih (Nat.lt_of_lt_of_le real (Nat.le_add_right _ _)) _

end link

-- refill puts all blocks of the row but the first into the empty list.
theorem fill_parts {size chunk nobjs : Nat} (linked : ∀ i, Linked 0 s.next (s.freeList i) (chains i)) (some : 0 < size)
    (many : 1 ≤ nobjs) (empty : chains (freeListIndex size) = [])
    (apart : ∀ i, ∀ node ∈ chains i, node ∉ row (chunk + size) size (nobjs - 1)) :
    ∃ heads links, s.fill size chunk nobjs = {s with freeList := heads,next := links} ∧
      ∀ i, Linked 0 links (heads i) (Function.update chains (freeListIndex size) (row (chunk + size) size (nobjs - 1)) i) := by
  unfold fill
  by_cases one : nobjs = 1
  · rw [if_pos one,one]
    refine ⟨s.freeList,s.next,rfl,?_⟩
    have same : Function.update chains (freeListIndex size) (row (chunk + size) size (1 - 1)) = chains := by
      rw [show row (chunk + size) size (1 - 1) = chains (freeListIndex size) from empty.symm,Function.update_eq_self]
    rw [same]
    exact linked
  · rw [if_neg one]
    have count : nobjs - 1 = nobjs - 2 + 1 := by omega
    refine ⟨_,_,rfl,?_⟩
    rw [count] at apart ⊢
    refine Linked.change (fun i => ?_) (link_linked some (Nat.add_pos_right chunk some) s.next (nobjs - 2))
    exact (linked i).frame fun node member => link_other (apart i node member)

theorem fresh.disjoint {region : Extent} (fresh : s.fresh region) : Disjoint region.bytes (covered s.obtained + covered (large s.live)) := by
  rw [← covered_append]
  exact disjoint_covered fresh.2.2.2

-- nobjs blocks of size z at the start of the range.
structure Cut (s : MemPool) (z nobjs : Nat) : Prop where
  positive : 0 < z
  aligned : kAlign ∣ z
  some : 1 ≤ nobjs
  room : z * nobjs ≤ s.endFree - s.startFree
  below : s.startFree ≤ s.endFree
  placed : Placed s s.remaining

namespace Cut
variable {z nobjs : Nat}

theorem split (cut : Cut s z nobjs) : s.remaining.bytes = bytes ⟨s.startFree,z⟩ + (bytes ⟨s.startFree + z,z * (nobjs - 1)⟩ +
    bytes ⟨s.startFree + z * nobjs,s.endFree - (s.startFree + z * nobjs)⟩) := by
  have room := cut.room
  have first : z ≤ z * nobjs := Nat.le_mul_of_pos_right z cut.some
  have more : z * nobjs = z + z * (nobjs - 1) := by
    rw [Nat.mul_sub_one]
    omega
  have parts : s.remaining = ⟨s.startFree,z + (z * (nobjs - 1) + (s.endFree - (s.startFree + z * nobjs)))⟩ := by
    unfold remaining
    congr 1
    omega
  rw [parts,bytes_split,bytes_split,more,Nat.add_assoc]

theorem first (cut : Cut s z nobjs) : Placed s ⟨s.startFree,z⟩ := by
  have less : z ≤ z * nobjs := Nat.le_mul_of_pos_right z cut.some
  refine cut.placed.part cut.placed.1 ⟨Nat.le_refl _,?_⟩
  exact Nat.add_le_add_left (Nat.le_trans less cut.room) _

theorem cells (cut : Cut s z nobjs) : ∀ base ∈ row (s.startFree + z) z (nobjs - 1), Placed s ⟨base,z⟩ := by
  intro base member
  obtain ⟨i,inside,rfl⟩ := mem_row member
  have room := cut.room
  have most : z * (i + 2) ≤ z * nobjs := Nat.mul_le_mul_left z (by omega)
  rw [Nat.mul_add] at most
  have start := Nat.dvd_of_mod_eq_zero cut.placed.1
  refine cut.placed.part (Nat.mod_eq_zero_of_dvd (Nat.dvd_add (Nat.dvd_add start cut.aligned) (cut.aligned.mul_right i))) ⟨?_,?_⟩
  · dsimp only [remaining]
    omega
  · dsimp only [remaining]
    omega

-- The range behind them.
theorem ordered (cut : Cut s z nobjs) (whole : (s.endFree - s.startFree) % kAlign = 0) :
    s.startFree + z * nobjs ≤ s.endFree ∧ (s.endFree - (s.startFree + z * nobjs)) % kAlign = 0 := by
  have room := cut.room
  have below := cut.below
  refine ⟨by omega,?_⟩
  rw [← Nat.sub_sub]
  exact Nat.mod_eq_zero_of_dvd (Nat.dvd_sub (Nat.dvd_of_mod_eq_zero whole) (cut.aligned.mul_right nobjs))

theorem behind (cut : Cut s z nobjs) : s.startFree + z * nobjs < s.endFree →
    Placed s ⟨s.startFree + z * nobjs,s.endFree - (s.startFree + z * nobjs)⟩ := by
  intro more
  have start := Nat.dvd_of_mod_eq_zero cut.placed.1
  refine cut.placed.part (Nat.mod_eq_zero_of_dvd (Nat.dvd_add start (cut.aligned.mul_right nobjs))) ⟨Nat.le_add_right _ _,?_⟩
  dsimp only [remaining]
  omega

end Cut

namespace Laid

theorem cut {nobjs : Nat} (old : Laid s chains left) (small : Small n) (some : 1 ≤ nobjs)
    (room : roundUp n * nobjs ≤ s.endFree - s.startFree) : Cut s (roundUp n) nobjs := by
  obtain ⟨fits,_,aligned⟩ := small.fits
  have positive : 0 < roundUp n := Nat.lt_of_lt_of_le small.some fits
  have least : 0 < roundUp n * nobjs := Nat.mul_pos positive some
  exact ⟨positive,Nat.dvd_of_mod_eq_zero aligned,some,room,old.ordered.1,old.placed (by omega)⟩

theorem heap (old : Laid s chains left) : s.heapSize < word := by
  rw [old.counted]
  exact card_below (Nat.two_pow_pos 64) (Multiset.nodup_add.mp old.once).1 old.inside

theorem calls (old : Laid s chains left) (call : Call) : Laid {s with call := call} chains left :=
  ⟨old.linked,old.unused,old.whole,old.once,old.inside,old.counted,old.users,old.entries,old.ordered,old.placed⟩

-- A byte that is not in the free lists is no node of one.
theorem apart (old : Laid s chains left) (outside : address ∉ free chains) (i : Nat) : address ∉ chains i := by
  intro member
  by_cases below : i < kNumFreeLists
  · refine outside (Multiset.mem_sum.mpr ⟨i,Finset.mem_range.mpr below,base_mem_covered ?_ member⟩)
    exact Nat.mul_pos (Nat.succ_pos i) (by decide)
  · rw [old.unused i (Nat.le_of_not_lt below)] at member
    cases member

theorem once_whole (old : Laid s chains left) : (covered (small s.live) + (free chains + left)).Nodup := by
  rw [old.whole]
  exact (Multiset.nodup_add.mp old.once).1

-- What is left over is in no free list.
theorem spare (old : Laid s chains left) (here : address ∈ left) : address ∉ free chains := by
  intro listed
  obtain ⟨_,rest,_⟩ := Multiset.nodup_add.mp old.once_whole
  obtain ⟨_,_,apart⟩ := Multiset.nodup_add.mp rest
  exact Multiset.disjoint_left.mp apart listed here

-- What a user has is in no free list.
theorem user (old : Laid s chains left) {block : Nat × Nat} (member : block ∈ s.live) (here : address ∈ (granted block).bytes) :
    address ∉ free chains := by
  intro listed
  by_cases few : block.2 ≤ kMaxBytes
  · have used : address ∈ covered (small s.live) :=
      mem_covered.mpr ⟨_,List.mem_map_of_mem (List.mem_filter.mpr ⟨member,decide_eq_true few⟩),here⟩
    obtain ⟨_,_,apart⟩ := Multiset.nodup_add.mp old.once_whole
    exact Multiset.disjoint_left.mp apart used (Multiset.mem_add.mpr (.inl listed))
  · have used : address ∈ covered (large s.live) :=
      mem_covered.mpr ⟨_,List.mem_map_of_mem (List.mem_filter.mpr ⟨member,decide_eq_true (Nat.lt_of_not_le few)⟩),here⟩
    have obtained : address ∈ covered s.obtained := by
      rw [← old.whole]
      exact Multiset.mem_add.mpr (.inr (Multiset.mem_add.mpr (.inl listed)))
    obtain ⟨_,_,apart⟩ := Multiset.nodup_add.mp old.once
    exact Multiset.disjoint_left.mp apart obtained used

theorem write (old : Laid s chains left) (able : s.mayWrite address) (value : Nat) :
    Laid {s with next := Function.update s.next address value} chains left := by
  obtain ⟨_,block,member,above,below⟩ := able
  have align : kAlign = 8 := rfl
  have outside := old.user member (mem_bytes.mpr ⟨above,by omega⟩)
  exact ⟨Linked.write old.linked (old.apart outside) value,old.unused,old.whole,old.once,old.inside,old.counted,old.users,old.entries,
    old.ordered,old.placed⟩

theorem unused_change (old : Laid s chains left) (small : Small n) (bases : List Nat) :
    ∀ i, kNumFreeLists ≤ i → Function.update chains (freeListIndex n) bases i = [] := by
  intro i above
  rw [Function.update_of_ne (Nat.ne_of_gt (Nat.lt_of_lt_of_le small.index above))]
  exact old.unused i above

theorem entries_change (old : Laid s chains left) {bases : List Nat} (index : Nat)
    (placed : ∀ base ∈ bases, Placed s ⟨base,(index + 1) * kAlign⟩) :
    ∀ i < kNumFreeLists, ∀ base ∈ Function.update chains index bases i, Placed s ⟨base,(i + 1) * kAlign⟩ :=
  (Function.forall_update_iff chains fun i bases => i < kNumFreeLists → ∀ base ∈ bases, Placed s ⟨base,(i + 1) * kAlign⟩).mpr
    ⟨fun _ => placed,fun i _ => old.entries i⟩

-- The first block of a list goes to a user.
theorem pop (old : Laid s chains left) (small : Small n) (found : s.freeList (freeListIndex n) ≠ 0) (total : Nat) :
    ∃ others, Laid {s with
      freeList := Function.update s.freeList (freeListIndex n) (s.next (s.freeList (freeListIndex n)))
      totalAllocated := total
      live := (s.freeList (freeListIndex n),n) :: s.live} others left := by
  obtain ⟨bases,held,tail⟩ := (old.linked (freeListIndex n)).pop found
  obtain ⟨rest,before,parts⟩ := free_change small.index held
  have first : Placed s ⟨s.freeList (freeListIndex n),(freeListIndex n + 1) * kAlign⟩ :=
    old.entries _ small.index _ (held ▸ List.mem_cons_self)
  refine ⟨Function.update chains (freeListIndex n) bases,?_⟩
  refine ⟨Linked.change old.linked tail,old.unused_change small bases,?_,?_,old.inside,old.counted,?_,?_,old.ordered,old.placed⟩
  · dsimp only
    rw [small_cons small,parts,← old.whole,before,blocks_cons,covered_cons]
    abel
  · dsimp only
    rw [large_cons_small small.few]
    exact old.once
  · refine List.forall_mem_cons.mpr ⟨⟨small.some,first.1,fun _ => ?_⟩,old.users⟩
    rw [granted_small small]
    exact first
  · exact old.entries_change _ fun base member => old.entries _ small.index base (held ▸ List.mem_cons_of_mem _ member)

theorem erase_users (old : Laid s chains left) (block : Nat × Nat) :
    ∀ other ∈ s.live.erase block, 1 ≤ other.2 ∧ other.1 % kAlign = 0 ∧ (other.2 ≤ kMaxBytes → Placed s (granted other)) :=
  fun other member => old.users other (List.mem_of_mem_erase member)

-- A small block comes back to the list of its class.
theorem giveBack (old : Laid s chains left) (member : (p,n) ∈ s.live) (few : n ≤ kMaxBytes) (total : Nat) :
    ∃ others, Laid ({s with totalFreed := total,live := s.live.erase (p,n)}.push (freeListIndex n) p) others left := by
  have small : Small n := ⟨(old.users _ member).1,few⟩
  have placed := (old.users _ member).2.2 few
  rw [granted_small small] at placed
  have size : 0 < (freeListIndex n + 1) * kAlign := Nat.mul_pos (Nat.succ_pos _) (by decide)
  have here : p ∈ (granted (p,n)).bytes := by
    rw [granted_small small]
    exact mem_bytes.mpr ⟨Nat.le_refl _,Nat.lt_add_of_pos_right size⟩
  have outside := old.user member here
  have listed : (p,n) ∈ s.live.filter fun block => block.2 ≤ kMaxBytes := List.mem_filter.mpr ⟨member,decide_eq_true few⟩
  have used : p ∈ covered s.obtained := by
    rw [← old.whole]
    exact Multiset.mem_add.mpr (.inl (mem_covered.mpr ⟨_,List.mem_map_of_mem listed,here⟩))
  have real : p ≠ 0 := Nat.ne_of_gt (old.inside p used).1
  obtain ⟨rest,before,parts⟩ := free_change small.index (rfl : chains (freeListIndex n) = chains (freeListIndex n))
  refine ⟨Function.update chains (freeListIndex n) (p :: chains (freeListIndex n)),?_⟩
  refine ⟨Linked.push old.linked real (old.apart outside) _,old.unused_change small _,?_,?_,old.inside,old.counted,
    old.erase_users (p,n),?_,old.ordered,old.placed⟩
  · dsimp only [push]
    rw [parts,← old.whole,before,small_erase member,small_cons small,blocks_cons,covered_cons]
    abel
  · dsimp only [push]
    have same := large_erase member
    rw [large_cons_small few] at same
    rw [← same]
    exact old.once
  · exact old.entries_change _ (List.forall_mem_cons.mpr ⟨placed,old.entries _ small.index⟩)

-- A large block comes from ::operator new and goes to ::operator delete.
theorem takeLarge (old : Laid s chains left) (many : kMaxBytes < n) (fresh : s.fresh ⟨p,n⟩) :
    Laid {s with call := .idle,live := (p,n) :: s.live} chains left := by
  have some : 1 ≤ n := Nat.one_le_of_lt many
  refine ⟨old.linked,old.unused,?_,?_,old.inside,old.counted,?_,old.entries,old.ordered,old.placed⟩
  · dsimp only
    rw [small_cons_large many]
    exact old.whole
  · dsimp only
    have apart := fresh.disjoint
    rw [large_cons many,add_left_comm]
    exact Multiset.nodup_add.mpr ⟨bytes_nodup _,old.once,apart⟩
  · exact List.forall_mem_cons.mpr ⟨⟨some,fresh.2.1,fun few => absurd many (Nat.not_lt.mpr few)⟩,old.users⟩

theorem freeLarge (old : Laid s chains left) (member : (p,n) ∈ s.live) (many : kMaxBytes < n) (total : Nat) :
    Laid {s with totalFreed := total,live := s.live.erase (p,n)} chains left := by
  refine ⟨old.linked,old.unused,?_,?_,old.inside,old.counted,old.erase_users (p,n),old.entries,old.ordered,old.placed⟩
  · dsimp only
    have same := small_erase member
    rw [small_cons_large many] at same
    rw [← same]
    exact old.whole
  · have once := old.once
    rw [large_erase member,large_cons many] at once
    refine Multiset.nodup_of_le ?_ once
    exact add_le_add (le_refl _) (Multiset.le_add_left _ _)

-- chunkAlloc cuts nobjs blocks off the range, and refill hands out the first.
theorem carve {nobjs : Nat} (old : Laid s chains s.remaining.bytes) (small : Small n) (empty : chains (freeListIndex n) = [])
    (some : 1 ≤ nobjs) (room : roundUp n * nobjs ≤ s.endFree - s.startFree) :
    ∃ others, Laid {({s with startFree := s.startFree + roundUp n * nobjs}.fill (roundUp n) s.startFree nobjs) with
      call := .idle
      live := (s.startFree,n) :: s.live} others
      (bytes ⟨s.startFree + roundUp n * nobjs,s.endFree - (s.startFree + roundUp n * nobjs)⟩) := by
  have cut := old.cut small some room
  have index := small.index_roundUp
  have size := small.roundUp
  generalize roundUp n = z at *
  have outside : ∀ i, ∀ node ∈ chains i, node ∉ row (s.startFree + z) z (nobjs - 1) := by
    intro i node listed member
    refine old.apart (old.spare ?_) i listed
    have cell := base_mem_covered cut.positive member
    rw [covered_row] at cell
    rw [cut.split]
    exact Multiset.mem_add.mpr (.inr (Multiset.mem_add.mpr (.inl cell)))
  obtain ⟨rest,before,parts⟩ := free_change small.index empty
  have chained : ∀ i, Linked 0 {s with startFree := s.startFree + z * nobjs}.next (s.freeList i) (chains i) := old.linked
  obtain ⟨heads,links,same,linked⟩ := fill_parts chained cut.positive some (index.symm ▸ empty) outside
  rw [index] at linked
  rw [same]
  refine ⟨_,linked,old.unused_change small _,?_,?_,old.inside,old.counted,?_,?_,cut.ordered old.ordered.2,cut.behind⟩
  · dsimp only
    rw [small_cons small,parts,← size,covered_row,← old.whole,before,cut.split,blocks_nil,covered_nil]
    abel
  · dsimp only
    rw [large_cons_small small.few]
    exact old.once
  · refine List.forall_mem_cons.mpr ⟨⟨small.some,cut.placed.1,fun _ => ?_⟩,old.users⟩
    rw [granted_small small,← size]
    exact cut.first
  · refine old.entries_change _ fun base member => ?_
    rw [← size]
    exact cut.cells base member

-- chunkAlloc puts a leftover into the list of its size.
theorem shelve (old : Laid s chains s.remaining.bytes) (some : 0 < s.endFree - s.startFree) (few : s.endFree - s.startFree < kMaxBytes) :
    ∃ others, Laid (s.push (freeListIndex (s.endFree - s.startFree)) s.startFree) others 0 := by
  obtain ⟨_,whole⟩ := old.ordered
  have small : Small (s.endFree - s.startFree) := ⟨some,Nat.le_of_lt few⟩
  have size : s.remaining = ⟨s.startFree,(freeListIndex (s.endFree - s.startFree) + 1) * kAlign⟩ := by
    unfold remaining
    rw [freeListIndex_eq]
    unfold kAlign at *
    congr 1
    omega
  have placed : Placed s s.remaining := old.placed (by omega)
  have here : s.startFree ∈ s.remaining.bytes := mem_bytes.mpr ⟨Nat.le_refl _,Nat.lt_add_of_pos_right some⟩
  have outside := old.spare here
  have used : s.startFree ∈ covered s.obtained := by
    rw [← old.whole]
    exact Multiset.mem_add.mpr (.inr (Multiset.mem_add.mpr (.inr here)))
  have real : s.startFree ≠ 0 := Nat.ne_of_gt (old.inside _ used).1
  obtain ⟨rest,before,parts⟩ := free_change small.index (rfl : chains _ = chains _)
  refine ⟨_,Linked.push old.linked real (old.apart outside) _,old.unused_change small _,?_,old.once,old.inside,old.counted,old.users,
    ?_,old.ordered,old.placed⟩
  · dsimp only [push]
    rw [parts,← old.whole,before,size,blocks_cons,covered_cons]
    abel
  · rw [size] at placed
    exact old.entries_change _ (List.forall_mem_cons.mpr ⟨placed,old.entries _ small.index⟩)

-- What ::operator new returns to chunkAlloc is the range from then on.
theorem region {amount : Nat} (old : Laid s chains 0) (fresh : s.fresh ⟨p,amount⟩) (aligned : amount % kAlign = 0) :
    Laid {s with
      startFree := p
      heapSize := (s.heapSize + amount) % word
      endFree := p + amount
      obtained := ⟨p,amount⟩ :: s.obtained} chains (bytes ⟨p,amount⟩) := by
  have grows : ∀ {block}, Placed s block → block.base % kAlign = 0 ∧ ∃ region ∈ (⟨p,amount⟩ : Extent) :: s.obtained, Within block region := by
    intro block placed
    obtain ⟨base,region,member,within⟩ := placed
    exact ⟨base,region,List.mem_cons_of_mem _ member,within⟩
  have once : (bytes ⟨p,amount⟩ + (covered s.obtained + covered (large s.live))).Nodup :=
    Multiset.nodup_add.mpr ⟨bytes_nodup _,old.once,fresh.disjoint⟩
  obtain ⟨real,base,below,_⟩ := fresh
  have inside : ∀ byte ∈ bytes ⟨p,amount⟩ + covered s.obtained, 0 < byte ∧ byte < word := by
    intro byte member
    rcases Multiset.mem_add.mp member with here | there
    · obtain ⟨above,under⟩ := mem_bytes.mp here
      exact ⟨Nat.lt_of_lt_of_le real above,Nat.lt_of_lt_of_le under below⟩
    · exact old.inside byte there
  have total : (bytes ⟨p,amount⟩ + covered s.obtained).card < word := by
    refine card_below (Nat.two_pow_pos 64) ?_ inside
    rw [← add_assoc] at once
    exact (Multiset.nodup_add.mp once).1
  refine ⟨old.linked,old.unused,?_,?_,?_,?_,?_,?_,?_,?_⟩
  · dsimp only
    rw [covered_cons,← old.whole]
    abel
  · dsimp only
    rw [covered_cons,add_assoc]
    exact once
  · dsimp only
    rw [covered_cons]
    exact inside
  · dsimp only
    rw [covered_cons,old.counted]
    rw [Multiset.card_add,card_bytes] at total ⊢
    rw [Nat.add_comm]
    exact Nat.mod_eq_of_lt total
  · intro block member
    obtain ⟨some,aligned,placed⟩ := old.users block member
    exact ⟨some,aligned,fun few => grows (placed few)⟩
  · exact fun i below base member => grows (old.entries i below base member)
  · dsimp only
    rw [Nat.add_sub_cancel_left]
    exact ⟨Nat.le_add_right p amount,aligned⟩
  · intro _
    dsimp only [remaining]
    rw [Nat.add_sub_cancel_left]
    exact ⟨base,⟨p,amount⟩,List.mem_cons_self,Within.refl _⟩

end Laid

theorem fill_remaining (s : MemPool) (size chunk nobjs : Nat) : (s.fill size chunk nobjs).remaining = s.remaining := by
  unfold fill
  split <;> rfl

-- refill hands out a block or waits for ::operator new.
theorem Laid.refill (old : Laid s chains s.remaining.bytes) (small : Small n) (found : s.freeList (freeListIndex n) = 0) :
    Kept (s.refill n) := by
  have empty := (old.linked (freeListIndex n)).empty found
  have served : ∀ nobjs, 1 ≤ nobjs → roundUp n * nobjs ≤ s.endFree - s.startFree →
      Kept {({s with startFree := s.startFree + roundUp n * nobjs}.fill (roundUp n) s.startFree nobjs) with
        call := .idle
        live := (s.startFree,n) :: s.live} := by
    intro nobjs some room
    refine ⟨?_,trivial⟩
    obtain ⟨others,laid⟩ := old.carve small empty some room
    have same := fill_remaining {s with startFree := s.startFree + roundUp n * nobjs} (roundUp n) s.startFree nobjs
    dsimp only [remaining] at same
    rw [← same] at laid
    exact ⟨others,laid⟩
  unfold MemPool.refill chunkAlloc
  dsimp only
  by_cases whole : roundUp n * 20 ≤ s.endFree - s.startFree
  · rw [if_pos whole]
    exact served 20 (by decide) whole
  · rw [if_neg whole]
    by_cases part : roundUp n ≤ s.endFree - s.startFree
    · rw [if_pos part]
      have positive : 0 < roundUp n := Nat.lt_of_lt_of_le small.some small.fits.1
      exact served _ (Nat.div_pos part positive) (Nat.mul_div_le _ _)
    · rw [if_neg part]
      have less := Nat.lt_of_not_le part
      by_cases some : 0 < s.endFree - s.startFree
      · rw [if_pos some]
        obtain ⟨others,laid⟩ := old.shelve some (Nat.lt_of_lt_of_le less small.fits.2.1)
        refine ⟨⟨others,laid.calls (.chunk n)⟩,small,?_⟩
        have lower : freeListIndex n ≠ freeListIndex (s.endFree - s.startFree) := by
          have size := small.roundUp
          have multiple := old.ordered.2
          rw [freeListIndex_eq (s.endFree - s.startFree)]
          unfold kAlign at *
          omega
        exact ⟨(Function.update_of_ne lower _ _).trans found,fun _ => ⟨Nat.lt_of_lt_of_le less small.fits.2.1,Function.update_self ..⟩⟩
      · rw [if_neg some]
        have none : s.remaining.bytes = 0 := by
          unfold remaining
          rw [Nat.eq_zero_of_not_pos some]
          exact bytes_empty _
        rw [none] at old
        exact ⟨⟨chains,old.calls (.chunk n)⟩,small,found,fun more => absurd (Nat.sub_pos_of_lt more) some⟩

end NewMuduo.MemPool
