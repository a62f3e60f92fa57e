import NewMuduo.SlabAllocator

namespace NewMuduo.SlabAllocator
open Extent
variable {s after : SlabAllocator} {objectSize objectsPerSlab mem ptr address count : Nat} {chain : List Nat}

-- The size of a slab is a size_t, and the second object of one is as aligned as
-- the first.
def Fits (objectSize objectsPerSlab : Nat) : Prop :=
  max objectSize pointerSize * objectsPerSlab < word ∧ (objectsPerSlab = 1 ∨ max objectSize pointerSize % pointerSize = 0)

instance (objectSize objectsPerSlab : Nat) : Decidable (Fits objectSize objectsPerSlab) := by
  unfold Fits
  infer_instance

-- unused says that what allocate returns next is no live object.
structure Sound (objectSize : Nat) (s : SlabAllocator) : Prop where
  once : s.live.Nodup
  unused : s.freeList ∉ s.live
  apart : s.live.Pairwise fun one other => Disjoint (bytes ⟨one,s.objectSize⟩) (bytes ⟨other,s.objectSize⟩)
  room : objectSize ≤ s.objectSize ∧ pointerSize ≤ s.objectSize
  inside : ∀ object ∈ s.objects, ∃ region ∈ s.regions, Within ⟨object,s.objectSize⟩ region
  aligned : ∀ object ∈ s.objects, object % pointerSize = 0
  listed : ∃ chain, Linked 0 s.next s.freeList chain ∧ (chain ++ s.live).Perm s.objects

-- chain is the ghost content of the list, fixed by the links in memory.
structure Laid (objectSize objectsPerSlab : Nat) (s : SlabAllocator) (chain : List Nat) : Prop where
  size : s.objectSize = max objectSize pointerSize
  count : s.objectsPerSlab = objectsPerSlab
  fits : s.slabs ≠ [] → Fits objectSize objectsPerSlab
  placed : ∀ mem ∈ s.slabs, 0 < mem ∧ mem % maxAlign = 0 ∧ mem + s.slabSize ≤ word
  once : (covered s.regions).Nodup
  linked : Linked 0 s.next s.freeList chain
  whole : (chain ++ s.live).Perm s.objects

theorem allocateSlab_parts (s : SlabAllocator) (mem : Nat) : ∃ next head,
    s.allocateSlab mem = {s with slabs := s.slabs ++ [mem],next := next,freeList := head} := by
  have filled : ∀ (s : SlabAllocator) count, ∃ next head, s.fill mem count = {s with next := next,freeList := head} := by
    intro s count
    induction count with
    | zero => exact ⟨_,_,rfl⟩
    | succ i ih =>
      obtain ⟨next,head,same⟩ := ih
      rw [fill,same]
      unfold deallocate
      split
      · exact ⟨_,_,rfl⟩
      · exact ⟨_,_,rfl⟩
  exact filled _ _

-- The objects are pushed one after the other.
theorem fill_eq (real : ∀ i < count, s.object mem i ≠ 0) :
    s.fill mem count = {s with
      next := (Linked.pushed s.next s.freeList ((List.range count).map (s.object mem))).1
      freeList := (Linked.pushed s.next s.freeList ((List.range count).map (s.object mem))).2} := by
  induction count with
  | zero => rfl
  | succ i ih =>
    rw [fill,ih fun j below => real j (Nat.lt_succ_of_lt below),deallocate,if_neg (real i (Nat.lt_succ_self i)),List.range_succ,
      List.map_append,List.map_singleton,Linked.pushed_snoc]

-- While a slab's size is a size_t nothing wraps.
theorem slabSize_eq (fits : s.objectSize * s.objectsPerSlab < word) : s.slabSize = s.objectSize * s.objectsPerSlab :=
  Nat.mod_eq_of_lt fits

theorem object_row (some : 0 < s.objectSize) (fits : s.objectSize * s.objectsPerSlab < word) (inside : mem + s.slabSize ≤ word) :
    (List.range s.objectsPerSlab).map (s.object mem) = row mem s.objectSize s.objectsPerSlab := by
  rw [row_eq]
  refine List.map_congr_left fun i member => ?_
  have below : s.objectSize * i < s.objectSize * s.objectsPerSlab := Nat.mul_lt_mul_of_pos_left (List.mem_range.mp member) some
  rw [slabSize_eq fits] at inside
  unfold object
  rw [Nat.mul_comm i]
  exact Nat.mod_eq_of_lt (by omega)

theorem fresh.disjoint (fresh : s.fresh mem) : Disjoint (bytes ⟨mem,s.slabSize⟩) (covered s.regions) := by
  refine disjoint_covered fun other member => ?_
  obtain ⟨base,slab,rfl⟩ := List.mem_map.mp member
  exact fresh.2.2.2 base slab

namespace Laid

theorem room (old : Laid objectSize objectsPerSlab s chain) : objectSize ≤ s.objectSize ∧ pointerSize ≤ s.objectSize := by
  rw [old.size]
  exact ⟨Nat.le_max_left _ _,Nat.le_max_right _ _⟩

theorem positive (old : Laid objectSize objectsPerSlab s chain) : 0 < s.objectSize := Nat.lt_of_lt_of_le (by decide) old.room.2

theorem short (old : Laid objectSize objectsPerSlab s chain) (fits : Fits objectSize objectsPerSlab) :
    s.objectSize * s.objectsPerSlab < word := by
  rw [old.size,old.count]
  exact fits.1

theorem row (old : Laid objectSize objectsPerSlab s chain) (member : mem ∈ s.slabs) :
    (List.range s.objectsPerSlab).map (s.object mem) = row mem s.objectSize s.objectsPerSlab :=
  object_row old.positive (old.short (old.fits (List.ne_nil_of_mem member))) (old.placed mem member).2.2

theorem objects (old : Laid objectSize objectsPerSlab s chain) :
    s.objects = s.slabs.flatMap fun mem => Extent.row mem s.objectSize s.objectsPerSlab :=
  List.flatMap_congr fun _ => old.row

theorem regions (old : Laid objectSize objectsPerSlab s chain) :
    s.regions = s.slabs.map fun mem => ⟨mem,s.objectSize * s.objectsPerSlab⟩ := by
  refine List.map_congr_left fun mem member => ?_
  rw [slabSize_eq (old.short (old.fits (List.ne_nil_of_mem member)))]

-- Objects of the list and of users make up the slabs.
theorem bytes (old : Laid objectSize objectsPerSlab s chain) :
    covered (blocks s.objectSize (chain ++ s.live)) = covered s.regions := by
  have same : covered (blocks s.objectSize (chain ++ s.live)) = covered (blocks s.objectSize s.objects) :=
    covered_perm (old.whole.map _)
  rw [same,old.objects,old.regions]
  exact covered_rows _ _ _

theorem separate (old : Laid objectSize objectsPerSlab s chain) :
    (chain ++ s.live).Pairwise fun one other => Disjoint (Extent.bytes ⟨one,s.objectSize⟩) (Extent.bytes ⟨other,s.objectSize⟩) :=
  blocks_apart (old.bytes ▸ old.once)

theorem nodup (old : Laid objectSize objectsPerSlab s chain) : (chain ++ s.live).Nodup :=
  bases_nodup old.positive (old.bytes ▸ old.once)

-- An object is so many sizes behind the start of its slab.
theorem mem_objects (old : Laid objectSize objectsPerSlab s chain) (member : ptr ∈ s.objects) :
    ∃ mem ∈ s.slabs, ∃ i < s.objectsPerSlab, ptr = mem + s.objectSize * i := by
  rw [old.objects] at member
  obtain ⟨mem,slab,member⟩ := List.mem_flatMap.mp member
  exact ⟨mem,slab,mem_row member⟩

theorem real (old : Laid objectSize objectsPerSlab s chain) (member : ptr ∈ chain ++ s.live) : ptr ≠ 0 := by
  obtain ⟨mem,slab,i,_,rfl⟩ := old.mem_objects (old.whole.subset member)
  have := (old.placed mem slab).1
  omega

theorem sound (old : Laid objectSize objectsPerSlab s chain) : Sound objectSize s := by
  obtain ⟨_,once,other⟩ := List.nodup_append.mp old.nodup
  obtain ⟨_,apart,_⟩ := List.pairwise_append.mp old.separate
  refine ⟨once,fun member => ?_,apart,old.room,fun ptr member => ?_,fun ptr member => ?_,chain,old.linked,old.whole⟩
  · obtain ⟨rest,rfl,_⟩ := old.linked.pop (old.real (List.mem_append_right _ member))
    exact other _ List.mem_cons_self _ member rfl
  · obtain ⟨mem,slab,i,below,rfl⟩ := old.mem_objects member
    refine ⟨_,List.mem_map_of_mem slab,Nat.le_add_right _ _,?_⟩
    have most : s.objectSize * (i + 1) ≤ s.objectSize * s.objectsPerSlab := Nat.mul_le_mul_left _ below
    rw [Nat.mul_succ] at most
    rw [slabSize_eq (old.short (old.fits (List.ne_nil_of_mem slab)))]
    dsimp only
    omega
  · obtain ⟨mem,slab,i,below,rfl⟩ := old.mem_objects member
    have base : mem % 16 = 0 := (old.placed mem slab).2.1
    have stride : s.objectSize * i % 8 = 0 := by
      rcases (old.fits (List.ne_nil_of_mem slab)).2 with one | even
      · rw [old.count,one] at below
        rw [Nat.lt_one_iff.mp below]
        rfl
      · rw [← old.size] at even
        exact Nat.mod_eq_zero_of_dvd ((Nat.dvd_of_mod_eq_zero even).mul_right i)
    unfold pointerSize
    omega

-- Nothing else depends on the links, the list and the live objects.
theorem relinked (old : Laid objectSize objectsPerSlab s chain) {next : Nat → Nat} {head : Nat} {nodes live : List Nat}
    (linked : Linked 0 next head nodes) (whole : (nodes ++ live).Perm s.objects) (allocating : Bool) :
    Laid objectSize objectsPerSlab {s with next := next,freeList := head,live := live,allocating := allocating} nodes :=
  ⟨old.size,old.count,old.fits,old.placed,old.once,linked,whole⟩

theorem take (old : Laid objectSize objectsPerSlab s chain) (free : s.freeList ≠ 0) : ∃ rest, Laid objectSize objectsPerSlab s.take rest := by
  obtain ⟨rest,rfl,tail⟩ := old.linked.pop free
  exact ⟨rest,old.relinked tail (List.perm_middle.trans old.whole) false⟩

theorem allocate (old : Laid objectSize objectsPerSlab s chain) : ∃ nodes, Laid objectSize objectsPerSlab s.allocate nodes := by
  unfold SlabAllocator.allocate
  split
  · exact ⟨chain,old.relinked old.linked old.whole true⟩
  · rename_i free
    exact old.take free

theorem deallocate (old : Laid objectSize objectsPerSlab s chain) (able : ptr = 0 ∨ ptr ∈ s.live) :
    ∃ nodes, Laid objectSize objectsPerSlab {s.deallocate ptr with live := s.live.erase ptr} nodes := by
  unfold SlabAllocator.deallocate
  split
  · rename_i null
    have absent : ptr ∉ s.live := fun member => old.real (List.mem_append_right _ member) null
    rw [List.erase_of_not_mem absent]
    exact ⟨chain,old⟩
  · rename_i real
    have member := able.resolve_left real
    have apart : ptr ∉ chain := fun free => (List.nodup_append.mp old.nodup).2.2 _ free _ member rfl
    have whole : (ptr :: chain ++ s.live.erase ptr).Perm s.objects :=
      (List.perm_middle.symm.trans ((List.perm_cons_erase member).symm.append_left chain)).trans old.whole
    exact ⟨ptr :: chain,old.relinked (old.linked.push_one real apart) whole s.allocating⟩

-- A word of a user's object is no link of the list.
theorem write (old : Laid objectSize objectsPerSlab s chain) (able : s.mayWrite address) (value : Nat) :
    Laid objectSize objectsPerSlab {s with next := Function.update s.next address value} chain := by
  obtain ⟨ptr,member,before,behind⟩ := able
  have apart : address ∉ chain := by
    intro free
    have disjoint := (List.pairwise_append.mp old.separate).2.2 _ free _ member
    have room := old.room.2
    have here : max address ptr ∈ Extent.bytes ⟨address,s.objectSize⟩ := mem_bytes.mpr (by dsimp only; omega)
    have there : max address ptr ∈ Extent.bytes ⟨ptr,s.objectSize⟩ := mem_bytes.mpr (by dsimp only; omega)
    exact Multiset.disjoint_left.mp disjoint here there
  refine old.relinked (old.linked.frame fun node free => Function.update_of_ne ?_ _ _) old.whole s.allocating
  rintro rfl
  exact apart free

theorem allocateSlab (old : Laid objectSize objectsPerSlab s chain) (fits : Fits objectSize objectsPerSlab) (fresh : s.fresh mem) :
    Laid objectSize objectsPerSlab (s.allocateSlab mem) ((Extent.row mem s.objectSize s.objectsPerSlab).reverse ++ chain) := by
  obtain ⟨positive,align,below,_⟩ := id fresh
  have cells := object_row old.positive (old.short fits) below
  have real : ∀ node ∈ Extent.row mem s.objectSize s.objectsPerSlab, node ≠ 0 := by
    intro node member
    obtain ⟨i,_,rfl⟩ := mem_row member
    omega
  have apart : ∀ node ∈ Extent.row mem s.objectSize s.objectsPerSlab, node ∉ chain := by
    intro node member free
    have here := row_inside old.positive member
    rw [← slabSize_eq (old.short fits)] at here
    have there := base_mem_covered old.positive (List.mem_append_left s.live free)
    rw [old.bytes] at there
    exact Multiset.disjoint_left.mp fresh.disjoint here there
  have filled : s.allocateSlab mem = {s with
      slabs := s.slabs ++ [mem]
      next := (Linked.pushed s.next s.freeList (Extent.row mem s.objectSize s.objectsPerSlab)).1
      freeList := (Linked.pushed s.next s.freeList (Extent.row mem s.objectSize s.objectsPerSlab)).2} := by
    rw [← cells] at real ⊢
    exact fill_eq fun i member => real _ (List.mem_map_of_mem (List.mem_range.mpr member))
  rw [filled]
  refine ⟨old.size,old.count,fun _ => fits,fun base slab => ?_,?_,
    Linked.pushed_linked old.linked (row_nodup old.positive mem _) real apart,?_⟩
  · rcases List.mem_append.mp slab with before | last
    · exact old.placed base before
    · cases List.mem_singleton.mp last
      exact ⟨positive,align,below⟩
  · have more : covered (SlabAllocator.regions {s with slabs := s.slabs ++ [mem]}) = covered s.regions + Extent.bytes ⟨mem,s.slabSize⟩ := by
      unfold SlabAllocator.regions
      rw [List.map_append,covered_append]
      exact congrArg _ (add_zero _)
    exact more ▸ Multiset.nodup_add.mpr ⟨old.once,bytes_nodup _,fresh.disjoint.symm⟩
  · have more : SlabAllocator.objects {s with slabs := s.slabs ++ [mem]} = s.objects ++ Extent.row mem s.objectSize s.objectsPerSlab := by
      unfold SlabAllocator.objects
      rw [List.flatMap_append,List.flatMap_singleton]
      exact congrArg _ cells
    refine List.Perm.trans ?_ (List.Perm.of_eq more.symm)
    rw [List.append_assoc]
    exact (((List.reverse_perm _).append old.whole)).trans List.perm_append_comm

theorem operatorNew (old : Laid objectSize objectsPerSlab s chain) (least : 1 ≤ objectsPerSlab) (fits : Fits objectSize objectsPerSlab)
    (fresh : s.fresh mem) : ∃ nodes, Laid objectSize objectsPerSlab (s.allocateSlab mem).take nodes := by
  have filled := old.allocateSlab fits fresh
  refine filled.take fun none => ?_
  have empty := congrArg List.length (filled.linked.empty none)
  rw [List.length_append,List.length_reverse,length_row,old.count,List.length_nil] at empty
  omega

end Laid

-- No slab is made whose objects are not apart and aligned.
def Cuts (objectSize objectsPerSlab : Nat) (label : Label) : Prop :=
  Fits objectSize objectsPerSlab ∨ ∀ mem, label ≠ .operatorNew mem

theorem laid_step {label : Label} (least : 1 ≤ objectsPerSlab) (old : ∃ chain, Laid objectSize objectsPerSlab s chain)
    (cuts : Cuts objectSize objectsPerSlab label) (taken : s.step label = some after) :
    ∃ nodes, Laid objectSize objectsPerSlab after nodes := by
  obtain ⟨chain,old⟩ := old
  cases label with
  | allocate =>
    simp only [SlabAllocator.step] at taken
    split at taken <;> cases taken
    exact old.allocate
  | operatorNew mem =>
    simp only [SlabAllocator.step] at taken
    split at taken <;> cases taken
    rename_i able
    exact old.operatorNew least (cuts.resolve_right fun other => other mem rfl) able.2
  | badAlloc =>
    simp only [SlabAllocator.step] at taken
    split at taken <;> cases taken
    exact ⟨chain,old.relinked old.linked old.whole false⟩
  | deallocate ptr =>
    simp only [SlabAllocator.step] at taken
    split at taken <;> cases taken
    rename_i able
    exact old.deallocate able.2
  | write address value =>
    simp only [SlabAllocator.step] at taken
    split at taken <;> cases taken
    rename_i able
    exact ⟨chain,old.write able value⟩

-- The first slab has an object outside of it when the size wraps, and an
-- unaligned second one when only the stride is odd.
theorem broken (old : Laid objectSize objectsPerSlab s chain) (least : 1 ≤ objectsPerSlab) (fresh : s.fresh mem)
    (unfit : ¬Fits objectSize objectsPerSlab) : ¬Sound objectSize (s.allocateSlab mem).take := by
  have none : s.slabs = [] := by
    by_contra some
    exact unfit (old.fits some)
  obtain ⟨positive,align,below,_⟩ := fresh
  obtain ⟨next,head,same⟩ := allocateSlab_parts s mem
  rw [same,none]
  intro sound
  have cell : ∀ i < s.objectsPerSlab, s.object mem i ∈ (take {s with slabs := [] ++ [mem],next := next,freeList := head}).objects :=
    fun i before => List.mem_append_left [] (List.mem_map_of_mem (List.mem_range.mpr before))
  have size := old.positive
  by_cases wraps : s.objectSize * s.objectsPerSlab < word
  · have many : 1 < s.objectsPerSlab := by
      rw [old.count]
      by_contra few
      exact unfit ⟨old.size ▸ old.count ▸ wraps,.inl (Nat.le_antisymm (Nat.not_lt.mp few) least)⟩
    have stride : s.objectSize * 1 < s.objectSize * s.objectsPerSlab := Nat.mul_lt_mul_of_pos_left many size
    have odd : s.objectSize % 8 ≠ 0 := by
      rw [old.size]
      exact fun even => unfit ⟨old.size ▸ old.count ▸ wraps,.inr even⟩
    have aligned : (mem + 1 * s.objectSize) % word % 8 = 0 := sound.aligned _ (cell 1 many)
    have base : mem % 16 = 0 := align
    rw [slabSize_eq wraps] at below
    have plain : (mem + 1 * s.objectSize) % word = mem + s.objectSize := by
      rw [Nat.one_mul]
      exact Nat.mod_eq_of_lt (by omega)
    omega
  · have short : s.slabSize < word := Nat.mod_lt _ (by decide)
    have before : s.slabSize / s.objectSize < s.objectsPerSlab :=
      (Nat.div_lt_iff_lt_mul size).mpr (by rw [Nat.mul_comm]; omega)
    obtain ⟨region,only,least,most⟩ := sound.inside _ (cell _ before)
    cases List.mem_singleton.mp only
    -- It starts less than one size before the end of the slab, or at word.
    have whole := Nat.div_add_mod' s.slabSize s.objectSize
    have part := Nat.mod_lt s.slabSize size
    change mem ≤ (mem + s.slabSize / s.objectSize * s.objectSize) % word at least
    change (mem + s.slabSize / s.objectSize * s.objectSize) % word + s.objectSize ≤ mem + s.slabSize at most
    rcases Nat.lt_or_ge (mem + s.slabSize / s.objectSize * s.objectSize) word with here | there
    · rw [Nat.mod_eq_of_lt here] at most
      omega
    · rw [show mem + s.slabSize / s.objectSize * s.objectSize = word by omega,Nat.mod_self] at least
      omega

theorem laid_new (objectSize objectsPerSlab : Nat) (memory : Nat → Nat) :
    Laid objectSize objectsPerSlab (new objectSize objectsPerSlab memory) [] :=
  ⟨rfl,rfl,fun some => absurd rfl some,fun _ absent => (nomatch absent),Multiset.nodup_zero,.nil,.refl _⟩

theorem objects_apart_iff_fits {memory : Nat → Nat} {labels : List Label} {final : SlabAllocator} (least : 1 ≤ objectsPerSlab)
    (ran : (machine objectSize objectsPerSlab).run (new objectSize objectsPerSlab memory) labels = some final) :
    (machine objectSize objectsPerSlab).Throughout (Sound objectSize) (new objectSize objectsPerSlab memory) labels ↔
      Fits objectSize objectsPerSlab ∨ ∀ mem, .operatorNew mem ∉ labels := by
  have cut : (machine objectSize objectsPerSlab).Throughout (Sound objectSize) (new objectSize objectsPerSlab memory) labels ↔
      (machine objectSize objectsPerSlab).Meets (fun _ label => Cuts objectSize objectsPerSlab label)
        (new objectSize objectsPerSlab memory) labels := by
    refine Machine.throughout_iff_meets (fun _ old => old.elim fun _ laid => laid.sound)
      (fun _ _ _ old cuts taken => laid_step least old cuts taken) ?_ ⟨[],laid_new objectSize objectsPerSlab memory⟩ ran
    intro s label after old missed taken
    obtain ⟨chain,old⟩ := old
    obtain ⟨unfit,made⟩ := not_or.mp missed
    cases label with
    | operatorNew mem =>
      simp only [machine,step] at taken
      split at taken <;> cases taken
      rename_i able
      exact broken old least able.2 unfit
    | _ => exact absurd (fun _ same => (nomatch same)) made
  rw [cut,Machine.meets_labels_iff ran]
  constructor
  · intro each
    by_cases fits : Fits objectSize objectsPerSlab
    · exact .inl fits
    · exact .inr fun mem member => (each _ member).elim fits fun other => other mem rfl
  · intro condition label member
    rcases condition with fits | none
    · exact .inl fits
    · exact .inr fun mem same => none mem (same ▸ member)

-- Two slabs, a write into an object, and one that comes back and goes out again.
def reused : List Label :=
  [.allocate,.operatorNew 0x1000,.allocate,.write 0x1008 7,.allocate,.operatorNew 0x2000,.deallocate 0x1000,.deallocate 0,.allocate]

theorem reused_apart : ∃ final, (machine 24 2).run (new 24 2 fun _ => 0) reused = some final ∧
    final.live = [0x1000,0x2018,0x1018] ∧ (machine 24 2).Throughout (Sound 24) (new 24 2 fun _ => 0) reused := by
  have found : ((machine 24 2).run (new 24 2 fun _ => 0) reused).map (·.live) = some [0x1000,0x2018,0x1018] := by decide +kernel
  obtain ⟨final,ran,live⟩ := Option.map_eq_some_iff.mp found
  exact ⟨final,ran,live,(objects_apart_iff_fits (by decide) ran).mpr (.inl (by decide))⟩

-- Twelve bytes are room for a pointer, but no stride for one.
theorem second_object_unaligned : ∃ final, (machine 12 2).run (new 12 2 fun _ => 0) [.allocate,.operatorNew 0x1000] = some final ∧
    final.live = [0x100c] ∧ ¬(machine 12 2).Throughout (Sound 12) (new 12 2 fun _ => 0) [.allocate,.operatorNew 0x1000] := by
  have found : ((machine 12 2).run (new 12 2 fun _ => 0) [.allocate,.operatorNew 0x1000]).map (fun s => (s.live,s.objects)) =
      some ([0x100c],[0x1000,0x100c]) := by decide +kernel
  obtain ⟨final,ran,parts⟩ := Option.map_eq_some_iff.mp found
  obtain ⟨live,objects⟩ := Prod.mk.inj parts
  refine ⟨final,ran,live,fun through => ?_⟩
  have aligned := (through.last ran).aligned 0x100c (by rw [objects]; decide)
  exact absurd aligned (by decide)

end NewMuduo.SlabAllocator
