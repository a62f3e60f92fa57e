import NewMuduo.PoolBlocks
import Mathlib.Algebra.BigOperators.Group.Finset.Piecewise
import Mathlib.Algebra.Order.BigOperators.Group.Finset
import Mathlib.Order.Interval.Finset.Nat

namespace NewMuduo.LFMemoryPool
open TaggedPointer
variable {Tid : Type} {s after : LFMemoryPool Tid} {t : Tid} {cls : Fin 7} {lists : Fin 7 → List (BitVec 64)} {call : PoolCall}

-- The blocks of a class that a thread may have cached, with its call here: a
-- refill starts with none and a drain leaves half.
def Fill (cls : Fin 7) (cached : Nat) : PoolCall → Prop
  | .popLoad call | .popProtect call _ _ | .popVerify call _ _ | .popNext call _ _ | .popExchange call _ _ _ | .popAgain call _ _
  | .popWon call _ => if call.cls = cls then cached = call.i ∧ call.i < kCacheCapacity else cached < kCacheCapacity * 2
  | .take own _ => if own = cls then cached ≤ kCacheCapacity else cached < kCacheCapacity * 2
  | .malloc own _ => if own = cls then cached = 0 else cached < kCacheCapacity * 2
  | .drain own left => if own = cls then cached = kCacheCapacity + left ∧ left ≤ kCacheCapacity else cached < kCacheCapacity * 2
  | .pushLoad own left _ | .pushLink own left _ _ | .pushExchange own left _ _ =>
    if own = cls then cached = kCacheCapacity + left ∧ left < kCacheCapacity else cached < kCacheCapacity * 2
  | .idle => cached < kCacheCapacity * 2

def Fills (s : LFMemoryPool Tid) : Prop := ∀ t cls, Fill cls (s.caches t cls).length (s.calls t)

theorem Fill.room (old : Fill cls cached call) : cached + (inHand cls call).length ≤ kCacheCapacity * 2 := by
  have capacity : kCacheCapacity = 16 := rfl
  cases call with
  | idle => exact Nat.le_of_lt old
  | popWon | pushLoad | pushLink | pushExchange =>
    simp only [Fill,inHand] at old ⊢
    split
    · rw [if_pos ‹_›] at old
      rw [List.length_singleton]
      omega
    · rw [if_neg ‹_›] at old
      exact Nat.le_of_lt old
  | _ =>
    simp only [Fill] at old
    change cached ≤ _
    split at old <;> omega

theorem Fill.loaded {refill : Refill} (old : Fill cls cached (.popLoad refill)) (packed : BitVec 64) (since : Nat) :
    Fill cls cached (loaded refill packed since) := by
  unfold LFMemoryPool.loaded
  split
  · simp only [Fill] at old ⊢
    split at old
    · rw [if_pos ‹_›,old.1]
      exact Nat.le_of_lt old.2
    · rwa [if_neg ‹_›]
  · exact old

variable [DecidableEq Tid]

theorem Fills.update (old : Fills s) (calls : after.calls = Function.update s.calls t call)
    (others : ∀ u, u ≠ t → after.caches u = s.caches u) (here : ∀ cls, Fill cls (after.caches t cls).length call) : Fills after := by
  intro u cls
  rw [calls]
  by_cases same : u = t
  · rw [same,Function.update_self]
    exact here cls
  · rw [Function.update_of_ne same,others u same]
    exact old u cls

-- The call goes on with the cache as it is.
theorem Fills.goes (old : Fills s) (here : s.calls t = place) (calls : after.calls = Function.update s.calls t call)
    (caches : after.caches = s.caches) (kept : ∀ cls cached, Fill cls cached place → Fill cls cached call) : Fills after := by
  refine old.update calls (fun u _ => by rw [caches]) fun cls => kept cls _ ?_
  rw [caches,← here]
  exact old t cls

theorem setCache_length (s : LFMemoryPool Tid) (t : Tid) (own cls : Fin 7) (nodes : List (BitVec 64)) :
    ((s.setCache t own nodes).caches t cls).length = if own = cls then nodes.length else (s.caches t cls).length := by
  simp only [setCache,Function.update_self]
  by_cases same : own = cls
  · rw [if_pos same,same,Function.update_self]
  · rw [if_neg same,Function.update_of_ne (Ne.symm same)]

omit [DecidableEq Tid] in
theorem Fills.idle (old : Fills s) (here : s.calls t = .idle) (cls : Fin 7) : (s.caches t cls).length < kCacheCapacity * 2 := by
  have filled := old t cls
  rwa [here] at filled

theorem Fills.takeBack (old : Fills s) (small : ∀ other, other ≠ cls → (s.caches t other).length < kCacheCapacity * 2)
    (most : (s.caches t cls).length ≤ kCacheCapacity * 2) (size : Nat)
    (otherwise : s.caches t cls = [] → ∀ other, Fill other (s.caches t other).length call) : Fills (s.takeBack t cls size call) := by
  unfold LFMemoryPool.takeBack
  split
  · rename_i empty
    exact old.update rfl (fun _ _ => rfl) (otherwise empty)
  · rename_i node rest cached
    refine old.update rfl (fun u apart => Function.update_of_ne apart _ _) fun other => ?_
    change ((s.setCache t cls rest).caches t other).length < kCacheCapacity * 2
    rw [setCache_length]
    split
    · rw [cached,List.length_cons] at most
      exact most
    · rename_i differ
      exact small other (Ne.symm differ)

theorem Fills.step (old : Fills s) (t : Tid) (spurious : Bool) : Fills (s.step t spurious) := by
  have capacity : kCacheCapacity = 16 := rfl
  have known := old t
  cases here : s.calls t with
  | idle | malloc =>
    simp only [LFMemoryPool.step,here]
    exact old
  | popLoad refill | popAgain refill packed since =>
    simp only [LFMemoryPool.step,here]
    exact old.goes here rfl rfl fun _ _ filled => Fill.loaded filled _ _
  | popProtect | popNext | pushLoad | pushLink =>
    simp only [LFMemoryPool.step,here]
    exact old.goes here rfl rfl fun _ _ filled => filled
  | popVerify =>
    simp only [LFMemoryPool.step,here]
    split <;> exact old.goes here rfl rfl fun _ _ filled => filled
  | popExchange =>
    simp only [LFMemoryPool.step,here]
    split <;> exact old.goes here rfl rfl fun _ _ filled => filled
  | popWon refill head =>
    simp only [LFMemoryPool.step,here]
    refine old.update rfl (fun u apart => Function.update_of_ne apart _ _) fun cls => ?_
    have filled := known cls
    simp only [here,Fill] at filled
    change Fill cls (((s.setCache t refill.cls (head :: s.caches t refill.cls)).caches t cls).length) _
    rw [setCache_length]
    by_cases own : refill.cls = cls
    · subst own
      rw [if_pos rfl] at filled
      rw [if_pos rfl,List.length_cons]
      split
      · rename_i more
        rw [Fill,if_pos rfl]
        exact ⟨congrArg Nat.succ filled.1,more⟩
      · rw [Fill,if_pos rfl]
        omega
    · rw [if_neg own] at filled
      rw [if_neg own]
      split
      · simpa only [Fill,if_neg own] using filled
      · simpa only [Fill,if_neg own] using filled
  | take own size =>
    simp only [LFMemoryPool.step,here]
    have small : ∀ other, other ≠ own → (s.caches t other).length < kCacheCapacity * 2 := by
      intro other differ
      have filled := known other
      rwa [here,Fill,if_neg (Ne.symm differ)] at filled
    have most := known own
    rw [here,Fill,if_pos rfl] at most
    refine old.takeBack small (by omega) size fun empty other => ?_
    by_cases same : own = other
    · rw [Fill,if_pos same,← same,empty]
      rfl
    · rw [Fill,if_neg same]
      exact small other (Ne.symm same)
  | drain own left =>
    cases left with
    | zero =>
      simp only [LFMemoryPool.step,here]
      refine old.goes here rfl rfl fun cls cached filled => ?_
      simp only [Fill] at filled ⊢
      split at filled <;> omega
    | succ left =>
      simp only [LFMemoryPool.step,here]
      have most := known own
      rw [here,Fill,if_pos rfl] at most
      split
      · rename_i empty
        rw [empty] at most
        exact absurd most.1 (by simp [capacity])
      · rename_i node rest cached
        refine old.update rfl (fun u apart => Function.update_of_ne apart _ _) fun cls => ?_
        change Fill cls ((s.setCache t own rest).caches t cls).length _
        rw [setCache_length]
        simp only [Fill]
        by_cases same : own = cls
        · rw [if_pos same,if_pos same]
          rw [cached,List.length_cons] at most
          omega
        · have filled := known cls
          rw [here,Fill,if_neg same] at filled
          rwa [if_neg same,if_neg same]
  | pushExchange own left node packed =>
    simp only [LFMemoryPool.step,here]
    split
    · refine old.goes here rfl rfl fun cls cached filled => ?_
      simp only [Fill] at filled ⊢
      split
      · rw [if_pos ‹_›] at filled
        omega
      · rwa [if_neg ‹_›] at filled
    · exact old.goes here rfl rfl fun _ _ filled => filled

theorem Fills.apply (old : Fills s) (label : Label Tid) (able : s.allowed label = true) : Fills (s.apply label) := by
  have capacity : kCacheCapacity = 16 := rfl
  cases label with
  | allocate t size =>
    simp only [allowed,Bool.and_eq_true] at able
    have idle := old.idle (idle_calls able.1.1)
    refine old.takeBack (fun other _ => idle other) (Nat.le_of_lt (idle _)) size fun empty other => ?_
    simp only [Fill]
    split
    · rename_i own
      rw [← own,empty]
      exact ⟨rfl,by decide⟩
    · exact idle other
  | deallocate t p size =>
    simp only [allowed,Bool.and_eq_true] at able
    have idle := old.idle (idle_calls able.1)
    refine old.update rfl (fun u apart => Function.update_of_ne apart _ _) fun cls => ?_
    change Fill cls (((s.setUsers size ((s.users size).erase p)).setCache t (sizeClass size)
      (p :: s.caches t (sizeClass size))).caches t cls).length _
    rw [setCache_length,List.length_cons]
    have own := idle (sizeClass size)
    have here := idle cls
    by_cases same : sizeClass size = cls
    · rw [if_pos same]
      split
      · rename_i full
        rw [Fill,if_pos same]
        omega
      · rename_i short
        exact Nat.lt_of_not_le short
    · rw [if_neg same]
      split
      · rw [Fill,if_neg same]
        exact here
      · exact here
  | malloc t p =>
    simp only [LFMemoryPool.apply,mallocReturns]
    split
    · rename_i own size here
      refine old.goes here rfl rfl fun cls cached filled => ?_
      simp only [Fill] at filled ⊢
      split at filled <;> omega
    · exact old
  | overwrite p value size => exact old
  | step t spurious => exact old.step t spurious

omit [DecidableEq Tid] in
theorem fills_new (memory : BitVec 64 → BitVec 64) : Fills (new memory : LFMemoryPool Tid) := fun _ _ => Nat.succ_pos 31

-- A call that will ask malloc for a block of the class, whatever the others do:
-- it has found the list empty, and its cache is.
def Turns (cls : Fin 7) (cached : List (BitVec 64)) : PoolCall → Prop
  | .popAgain call oldPacked _ => call.cls = cls ∧ ptr oldPacked = 0 ∧ cached = []
  | .take own _ => own = cls ∧ cached = []
  | .malloc own _ => own = cls
  | _ => False

omit [DecidableEq Tid] in
theorem Turns.wanted (turns : Turns cls cached call) : (wants call).map Prod.fst = some cls := by
  cases call with
  | popAgain | take => exact congrArg some turns.1
  | malloc => exact congrArg some turns
  | _ => cases turns

omit [DecidableEq Tid] in
theorem Turns.loaded {refill : Refill} {packed : BitVec 64} {since : Nat} (turns : Turns cls cached (loaded refill packed since)) :
    refill.cls = cls ∧ ptr packed = 0 ∧ cached = [] := by
  unfold LFMemoryPool.loaded at turns
  split at turns
  · rename_i null
    exact ⟨turns.1,null,turns.2⟩
  · cases turns

theorem takeBack_turns {otherwise : PoolCall} (turns : Turns cls ((s.takeBack t own size otherwise).caches t cls) ((s.takeBack t own size otherwise).calls t)) :
    s.caches t own = [] ∧ Turns cls (s.caches t cls) otherwise := by
  unfold LFMemoryPool.takeBack at turns
  split at turns
  · rename_i empty
    simp only [put,Function.update_self] at turns
    exact ⟨empty,turns⟩
  · simp only [put,Function.update_self] at turns
    cases turns

-- A step leaves a call so only where it was so or the list is empty.
theorem step_turns (spurious : Bool) (turns : Turns cls ((s.step t spurious).caches t cls) ((s.step t spurious).calls t)) :
    Turns cls (s.caches t cls) (s.calls t) ∨ ptr ((s.step t spurious).headPacked cls) = 0 := by
  cases here : s.calls t with
  | idle | malloc =>
    simp only [LFMemoryPool.step,here] at turns
    exact .inl turns
  | popLoad refill =>
    simp only [LFMemoryPool.step,here,put,Function.update_self] at turns ⊢
    obtain ⟨own,null,_⟩ := turns.loaded
    exact .inr (own ▸ null)
  | popAgain refill packed since =>
    simp only [LFMemoryPool.step,here,put,setHazard,Function.update_self] at turns
    exact .inl turns.loaded
  | popVerify refill packed since =>
    simp only [LFMemoryPool.step,here] at turns ⊢
    split at turns
    · rename_i differ
      simp only [put,Function.update_self] at turns
      rw [if_pos differ]
      exact .inr (turns.1 ▸ turns.2.1)
    · simp only [put,Function.update_self] at turns
      cases turns
  | popExchange refill packed link since =>
    simp only [LFMemoryPool.step,here] at turns ⊢
    split at turns
    · simp only [put,Function.update_self] at turns
      cases turns
    · rename_i failed
      simp only [put,Function.update_self] at turns
      rw [if_neg failed]
      exact .inr (turns.1 ▸ turns.2.1)
  | popWon refill head =>
    simp only [LFMemoryPool.step,here,put,Function.update_self] at turns
    split at turns
    · cases turns
    · obtain ⟨own,empty⟩ := turns
      simp [setCache,setHazard,own] at empty
  | take own size =>
    simp only [LFMemoryPool.step,here] at turns
    obtain ⟨empty,same⟩ := takeBack_turns turns
    exact .inl ⟨same,same ▸ empty⟩
  | drain own left =>
    cases left with
    | zero =>
      simp only [LFMemoryPool.step,here,put,Function.update_self] at turns
      cases turns
    | succ left =>
      simp only [LFMemoryPool.step,here] at turns
      split at turns
      · simp only [put,Function.update_self] at turns
        cases turns
      · simp only [put,Function.update_self] at turns
        cases turns
  | popProtect | popNext | pushLoad | pushLink =>
    simp only [LFMemoryPool.step,here,put,setHazard,Function.update_self] at turns
    cases turns
  | pushExchange =>
    simp only [LFMemoryPool.step,here] at turns
    split at turns
    · simp only [put,Function.update_self] at turns
      cases turns
    · simp only [put,Function.update_self] at turns
      cases turns

theorem takeBack_elsewhere (s : LFMemoryPool Tid) (own : Fin 7) (size : Nat) (otherwise : PoolCall) (apart : u ≠ t) :
    (s.takeBack t own size otherwise).calls u = s.calls u ∧ (s.takeBack t own size otherwise).caches u = s.caches u := by
  unfold LFMemoryPool.takeBack
  split
  · exact ⟨Function.update_of_ne apart _ _,rfl⟩
  · exact ⟨Function.update_of_ne apart _ _,Function.update_of_ne apart _ _⟩

theorem step_elsewhere (s : LFMemoryPool Tid) (spurious : Bool) (apart : u ≠ t) :
    (s.step t spurious).calls u = s.calls u ∧ (s.step t spurious).caches u = s.caches u := by
  have same : ∀ call, Function.update s.calls t call u = s.calls u := fun _ => Function.update_of_ne apart _ _
  have cached : ∀ lists, Function.update s.caches t lists u = s.caches u := fun _ => Function.update_of_ne apart _ _
  cases here : s.calls t with
  | idle | malloc => simp only [LFMemoryPool.step,here,and_self]
  | popLoad | popProtect | popNext | popAgain | pushLoad | pushLink =>
    simp only [LFMemoryPool.step,here,put,setHazard,same,and_self]
  | popVerify | popExchange | pushExchange =>
    simp only [LFMemoryPool.step,here]
    split <;> simp only [put,setHead,same,and_self]
  | popWon => simp only [LFMemoryPool.step,here,put,setHazard,setCache,same,cached,and_self]
  | take own size =>
    simp only [LFMemoryPool.step,here]
    exact takeBack_elsewhere s own size _ apart
  | drain own left =>
    cases left with
    | zero => simp only [LFMemoryPool.step,here,put,same,and_self]
    | succ left =>
      simp only [LFMemoryPool.step,here]
      split <;> simp only [put,setCache,same,cached,and_self]

theorem step_blocks (s : LFMemoryPool Tid) (t : Tid) (spurious : Bool) : (s.step t spurious).blocks = s.blocks := by
  cases here : s.calls t with
  | idle | malloc => simp only [LFMemoryPool.step,here]
  | popVerify | popExchange | pushExchange =>
    simp only [LFMemoryPool.step,here]
    split <;> rfl
  | take =>
    simp only [LFMemoryPool.step,here,LFMemoryPool.takeBack]
    split <;> rfl
  | drain own left =>
    cases left with
    | zero => simp only [LFMemoryPool.step,here,put]
    | succ left =>
      simp only [LFMemoryPool.step,here]
      split <;> rfl
  | _ => simp only [LFMemoryPool.step,here,put,setHazard,setCache]

omit [DecidableEq Tid] in
theorem Turns.bare (turns : Turns cls cached call) (filled : Fill cls cached.length call) : cached = [] ∧ inHand cls call = [] := by
  cases call with
  | popAgain => exact ⟨turns.2.2,rfl⟩
  | take => exact ⟨turns.2,rfl⟩
  | malloc own =>
    simp only [Turns] at turns
    rw [Fill,if_pos turns] at filled
    exact ⟨List.length_eq_zero_iff.mp filled,rfl⟩
  | _ => cases turns

theorem blockSize_injective (same : blockSize own = blockSize cls) : own = cls := by
  rw [blockSize,blockSize,Nat.one_shiftLeft,Nat.one_shiftLeft] at same
  have exponents := Nat.pow_right_injective (Nat.le_refl 2) same
  exact Fin.ext (Nat.add_right_cancel exponents)

section counts
variable [Fintype Tid]

-- The blocks of a class out to users, and the calls under way that ask for one.
def out (s : LFMemoryPool Tid) (cls : Fin 7) : Nat :=
  ∑ size ∈ (Finset.Icc 1 4096).filter fun size => sizeClass size = cls,(s.users size).length

def asking (s : LFMemoryPool Tid) (cls : Fin 7) : Nat :=
  (Finset.univ.filter fun t => (wants (s.calls t)).map Prod.fst = some cls).card

def demand (s : LFMemoryPool Tid) (cls : Fin 7) : Nat := s.out cls + s.asking cls

-- What threads may have cached or in hand, apart from one with nothing.
def spare (Tid : Type) [Fintype Tid] : Nat := kCacheCapacity * 2 * (Fintype.card Tid - 1)

open Classical in
noncomputable def turning (s : LFMemoryPool Tid) (cls : Fin 7) : Finset Tid :=
  Finset.univ.filter fun t => Turns cls (s.caches t cls) (s.calls t)

omit [DecidableEq Tid] in
theorem mem_turning : t ∈ s.turning cls ↔ Turns cls (s.caches t cls) (s.calls t) := by
  simp [turning]

omit [DecidableEq Tid] in
theorem turning_asking (s : LFMemoryPool Tid) (cls : Fin 7) : (s.turning cls).card ≤ s.asking cls :=
  Finset.card_le_card fun t here => Finset.mem_filter.mpr ⟨Finset.mem_univ t,(mem_turning.mp here).wanted⟩

-- A list found empty: every block of the class is out to a user or with a
-- thread that is not about to ask malloc.
theorem Kept.emptied (old : Kept s lists) (fills : Fills s) (null : ptr (s.headPacked cls) = 0)
    (turns : Turns cls (s.caches t cls) (s.calls t)) {nodes : Finset (BitVec 64)} (held : ∀ p ∈ nodes, s.blocks p = some (blockSize cls)) :
    nodes.card ≤ s.out cls + spare Tid := by
  have listless : lists cls = [] := (old.linked cls).empty null
  have nothing := turns.bare (fills t cls)
  have inside : nodes ⊆ ((Finset.Icc 1 4096).filter fun size => sizeClass size = cls).biUnion (fun size => (s.users size).toFinset) ∪
      (Finset.univ.erase t).biUnion fun u => (s.caches u cls ++ inHand cls (s.calls u)).toFinset := by
    intro p here
    obtain ⟨place,there⟩ := (old.filed.places.known_iff p).mp (by rw [held p here]; rfl)
    have own : place.cls = cls := blockSize_injective (Option.some.inj ((old.filed.fits place p there).symm.trans (held p here)))
    have other : ∀ u, p ∈ s.caches u cls ++ inHand cls (s.calls u) → u ∈ Finset.univ.erase t := by
      intro u mine
      refine Finset.mem_erase.mpr ⟨?_,Finset.mem_univ u⟩
      rintro rfl
      rw [nothing.1,nothing.2] at mine
      cases mine
    rw [Finset.mem_union,Finset.mem_biUnion,Finset.mem_biUnion]
    cases place with
    | user size =>
      obtain ⟨least,most⟩ := old.sizes size p there
      exact .inl ⟨size,Finset.mem_filter.mpr ⟨Finset.mem_Icc.mpr ⟨least,most⟩,own⟩,List.mem_toFinset.mpr there⟩
    | list filed =>
      change filed = cls at own
      rw [contents,own,listless] at there
      cases there
    | cache u filed =>
      change filed = cls at own
      rw [contents,own] at there
      have mine := List.mem_append_left (inHand cls (s.calls u)) there
      exact .inr ⟨u,other u mine,List.mem_toFinset.mpr mine⟩
    | hand u filed =>
      change filed = cls at own
      rw [contents,own] at there
      have mine := List.mem_append_right (s.caches u cls) there
      exact .inr ⟨u,other u mine,List.mem_toFinset.mpr mine⟩
  have users : (((Finset.Icc 1 4096).filter fun size => sizeClass size = cls).biUnion fun size => (s.users size).toFinset).card ≤
      s.out cls := Finset.card_biUnion_le.trans (Finset.sum_le_sum fun size _ => List.toFinset_card_le _)
  have threads : ((Finset.univ.erase t).biUnion fun u => (s.caches u cls ++ inHand cls (s.calls u)).toFinset).card ≤ spare Tid := by
    rw [spare,Nat.mul_comm,← Finset.card_univ,← Finset.card_erase_of_mem (Finset.mem_univ t)]
    refine Finset.card_biUnion_le_card_mul _ _ _ fun u _ => (List.toFinset_card_le _).trans ?_
    rw [List.length_append]
    exact (fills u cls).room
  exact (Finset.card_le_card inside).trans ((Finset.card_union_le _ _).trans (Nat.add_le_add users threads))

-- malloc's blocks of a class and the calls about to ask for one more.
def Sized (s : LFMemoryPool Tid) (cls : Fin 7) (most : Nat) : Prop :=
  ∀ nodes : Finset (BitVec 64), (∀ p ∈ nodes, s.blocks p = some (blockSize cls)) →
    nodes.card + (s.turning cls).card ≤ most + spare Tid

-- No more calls turn to malloc, or the list has just been found empty.
theorem Sized.same (old : Sized s cls most) (kept : Kept after lists) (fills : Fills after) (wanted : demand after cls ≤ most)
    (blocks : after.blocks = s.blocks) (turned : ∀ t, Turns cls (after.caches t cls) (after.calls t) →
      Turns cls (s.caches t cls) (s.calls t) ∨ ptr (after.headPacked cls) = 0) : Sized after cls most := by
  intro nodes held
  by_cases fewer : after.turning cls ⊆ s.turning cls
  · rw [blocks] at held
    exact Nat.le_trans (Nat.add_le_add_left (Finset.card_le_card fewer) _) (old nodes held)
  · obtain ⟨t,now,before⟩ := Finset.not_subset.mp fewer
    have turns := mem_turning.mp now
    have null := (turned t turns).resolve_left fun earlier => before (mem_turning.mpr earlier)
    have few := kept.emptied fills null turns held
    have asking := turning_asking after cls
    unfold demand at wanted
    omega

theorem Sized.malloced (old : Sized s cls most) (label : s.calls t = .malloc own size) (p : BitVec 64) :
    Sized (s.mallocReturns t p) cls most := by
  have idle : (s.mallocReturns t p).calls = Function.update s.calls t .idle := by simp only [mallocReturns,label]; rfl
  have caches : (s.mallocReturns t p).caches = s.caches := by simp only [mallocReturns,label]; rfl
  have blocks : (s.mallocReturns t p).blocks = Function.update s.blocks p (some (blockSize own)) := by simp only [mallocReturns,label]
  have left : (s.mallocReturns t p).turning cls = (s.turning cls).erase t := by
    ext u
    rw [Finset.mem_erase,mem_turning,mem_turning,idle,caches]
    by_cases same : u = t
    · rw [same,Function.update_self]
      exact iff_of_false (fun absent => absent) fun both => both.1 rfl
    · rw [Function.update_of_ne same]
      exact (and_iff_right same).symm
  intro nodes held
  have before : ∀ q ∈ nodes.erase p, s.blocks q = some (blockSize cls) := by
    intro q here
    obtain ⟨differ,member⟩ := Finset.mem_erase.mp here
    have known := held q member
    rwa [blocks,Function.update_of_ne differ] at known
  have bound := old (nodes.erase p) before
  rw [left]
  by_cases member : p ∈ nodes
  · have mine := held p member
    rw [blocks,Function.update_self] at mine
    have turns : t ∈ s.turning cls := mem_turning.mpr (by rw [label]; exact blockSize_injective (Option.some.inj mine))
    rw [Finset.card_erase_of_mem member] at bound
    rw [Finset.card_erase_of_mem turns]
    have one : 0 < (s.turning cls).card := Finset.card_pos.mpr ⟨t,turns⟩
    omega
  · rw [Finset.erase_eq_of_notMem member] at bound
    exact Nat.le_trans (Nat.add_le_add_left (Finset.card_le_card (Finset.erase_subset _ _)) _) bound

omit [DecidableEq Tid] [Fintype Tid] in
theorem turns_elsewhere {u : Tid} (same : after.calls u = s.calls u ∧ after.caches u = s.caches u)
    (turns : Turns cls (after.caches u cls) (after.calls u)) : Turns cls (s.caches u cls) (s.calls u) := by
  rwa [same.1,same.2] at turns

theorem Sized.apply (old : Sized s cls most) (label : Label Tid) (able : s.allowed label = true)
    (kept : Kept (s.apply label) lists) (fills : Fills (s.apply label)) (wanted : demand (s.apply label) cls ≤ most) :
    Sized (s.apply label) cls most := by
  cases label with
  | allocate t size =>
    have blocks : (s.apply (.allocate t size)).blocks = s.blocks := by
      simp only [LFMemoryPool.apply,allocate,LFMemoryPool.takeBack]
      split <;> rfl
    refine old.same kept fills wanted blocks fun u turns => .inl ?_
    by_cases same : u = t
    · rw [same] at turns
      exact (takeBack_turns turns).2.elim
    · exact turns_elsewhere (takeBack_elsewhere s _ _ _ same) turns
  | deallocate t p size =>
    refine old.same kept fills wanted rfl fun u turns => .inl ?_
    by_cases same : u = t
    · rw [same] at turns
      simp only [LFMemoryPool.apply,deallocate,put,Function.update_self] at turns
      split at turns <;> cases turns
    · exact turns_elsewhere ⟨Function.update_of_ne same _ _,Function.update_of_ne same _ _⟩ turns
  | malloc t p =>
    cases here : s.calls t with
    | malloc own size => exact old.malloced here p
    | _ =>
      rw [allowed,here] at able
      cases able
  | overwrite p value size => exact old.same kept fills wanted rfl fun _ turns => .inl turns
  | step t spurious =>
    refine old.same kept fills wanted (step_blocks s t spurious) fun u turns => ?_
    by_cases same : u = t
    · rw [same] at turns ⊢
      exact step_turns spurious turns
    · exact .inl (turns_elsewhere (step_elsewhere s spurious same) turns)

theorem sized_run {labels : List (Label Tid)} {final : LFMemoryPool Tid} (asked : Asked s) (kept : ∃ lists, Kept s lists)
    (fills : Fills s) (old : Sized s cls most) (few : (machine Tid).Meets FewPops s labels)
    (wanted : (machine Tid).Throughout (fun s => demand s cls ≤ most) s labels) (ran : (machine Tid).run s labels = some final) :
    Fills final ∧ Sized final cls most := by
  induction labels generalizing s with
  | nil =>
    cases Option.some.inj ran
    exact ⟨fills,old⟩
  | cons label rest ih =>
    obtain ⟨middle,taken,ran⟩ := Machine.run_cons_parts ran
    obtain ⟨able,same⟩ := Machine.guarded_parts.mp taken
    obtain ⟨_,before⟩ := kept
    obtain ⟨asked,lists,kept⟩ := kept_apply asked before label able few.1
    have later := wanted.2 middle taken
    have filled := fills.apply label able
    have bound := later.first
    rw [← same] at bound
    have sized := old.apply label able kept filled bound
    rw [same] at asked kept filled sized
    exact ih asked ⟨lists,kept⟩ filled sized (few.2 middle taken) later ran

-- If never more than most blocks of a class are out or asked for at one time,
-- malloc has been asked for no more than that and what the other threads' caches
-- can hold; and no cache has more than 31 of them between calls.
theorem blocks_bounded {labels : List (Label Tid)} {final : LFMemoryPool Tid} (origin : (machine Tid).start s)
    (ran : (machine Tid).run s labels = some final) (few : (machine Tid).Meets FewPops s labels)
    (wanted : (machine Tid).Throughout (fun s => demand s cls ≤ most) s labels) :
    (∀ nodes : Finset (BitVec 64), (∀ p ∈ nodes, final.blocks p = some (blockSize cls)) →
      nodes.card ≤ most + kCacheCapacity * 2 * (Fintype.card Tid - 1)) ∧
    ∀ t, PoolCall.isIdle (final.calls t) = true → (final.caches t cls).length < kCacheCapacity * 2 := by
  obtain ⟨memory,rfl⟩ := origin
  have begun : Sized (new memory : LFMemoryPool Tid) cls most := by
    intro nodes held
    have none : nodes = ∅ := Finset.eq_empty_of_forall_notMem fun p here => by cases held p here
    have quiet : (new memory : LFMemoryPool Tid).turning cls = ∅ :=
      Finset.eq_empty_of_forall_notMem fun t here => (mem_turning.mp here).elim
    rw [none,quiet]
    exact Nat.zero_le _
  obtain ⟨fills,sized⟩ := sized_run (fun _ _ _ absent => by cases absent) ⟨_,kept_new memory⟩ (fills_new memory) begun few wanted ran
  refine ⟨fun nodes held => ?_,fun t idle => fills.idle (idle_calls idle) cls⟩
  exact Nat.le_trans (Nat.le_add_right _ _) (sized nodes held)

end counts

instance (s : LFMemoryPool Bool) : ∀ label, Decidable (FewPops s label)
  | .step t _ => by
    unfold FewPops
    dsimp only
    split <;> infer_instance
  | .allocate .. | .deallocate .. | .malloc .. | .overwrite .. => .isTrue trivial

-- Two threads: three blocks asked of malloc and two given back, the second of
-- which the first thread takes from its cache again.
def threeBlocks : List (Label Bool) :=
  [.allocate true 100,.step true false,.step true false,.malloc true 0x1000,
    .allocate true 100,.step true false,.step true false,.malloc true 0x2000,.deallocate true 0x1000 100,
    .allocate false 100,.step false false,.step false false,.malloc false 0x3000,
    .deallocate true 0x2000 100,.allocate true 100]

theorem threeBlocks_bounded : ∃ s, (machine Bool).run (new fun _ => 0) threeBlocks = some s ∧
    (s.caches true (sizeClass 100),s.blocks 0x1000,s.users 100) = ([0x1000],some 128,[0x2000,0x3000]) ∧
    (∀ nodes : Finset (BitVec 64), (∀ p ∈ nodes, s.blocks p = some (blockSize (sizeClass 100))) →
      nodes.card ≤ 2 + kCacheCapacity * 2 * (Fintype.card Bool - 1)) ∧
    ∀ t, PoolCall.isIdle (s.calls t) = true → (s.caches t (sizeClass 100)).length < kCacheCapacity * 2 := by
  have found : ((machine Bool).run (new fun _ => 0) threeBlocks).map
      (fun s => (s.caches true (sizeClass 100),s.blocks 0x1000,s.users 100)) = some ([0x1000],some 128,[0x2000,0x3000]) := by
    decide +kernel
  obtain ⟨s,ran,held⟩ := Option.map_eq_some_iff.mp found
  have met : (machine Bool).Meets FewPops (new fun _ => 0) threeBlocks := by decide +kernel
  have wanted : (machine Bool).Throughout (fun s => demand s (sizeClass 100) ≤ 2) (new fun _ => 0) threeBlocks := by
    decide +kernel
  exact ⟨s,ran,held,blocks_bounded ⟨_,rfl⟩ ran met wanted⟩

end NewMuduo.LFMemoryPool
