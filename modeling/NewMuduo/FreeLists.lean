import NewMuduo.LFMemoryPool
import NewMuduo.Linked
import NewMuduo.Places

namespace NewMuduo.LFMemoryPool
open TaggedPointer
variable {Tid : Type} {s : LFMemoryPool Tid} {t : Tid} {lists : Fin 7 → List (BitVec 64)}

-- Where a block can be: out to a user, in a thread's cache, in a free list or
-- in the hands of a push or pop.
inductive Place (Tid : Type) where
  | user (size : Nat)
  | cache (t : Tid) (cls : Fin 7)
  | list (cls : Fin 7)
  | hand (t : Tid) (cls : Fin 7)

def Place.cls : Place Tid → Fin 7
  | .user size => sizeClass size
  | .cache _ cls | .list cls | .hand _ cls => cls

def inHand (cls : Fin 7) : PoolCall → List (BitVec 64)
  | .popWon call head => if call.cls = cls then [head] else []
  | .pushLoad other _ node | .pushLink other _ node _ | .pushExchange other _ node _ => if other = cls then [node] else []
  | _ => []

def contents (s : LFMemoryPool Tid) (lists : Fin 7 → List (BitVec 64)) : Place Tid → List (BitVec 64)
  | .user size => s.users size
  | .cache t cls => s.caches t cls
  | .list cls => lists cls
  | .hand t cls => inHand cls (s.calls t)

-- A word loaded since a number of pops: while no other pop succeeds its block
-- stays in the list.
def Recent (pops : Fin 7 → Nat) (lists : Fin 7 → List (BitVec 64)) (cls : Fin 7) (oldPacked : BitVec 64) (since : Nat) : Prop :=
  since ≤ pops cls ∧ tag oldPacked = BitVec.ofNat 16 since ∧
    (pops cls = since → ptr oldPacked ≠ 0 → ptr oldPacked ∈ lists cls)

-- What a thread knows of the lists between its steps.
def Sound (next : BitVec 64 → BitVec 64) (pops : Fin 7 → Nat) (lists : Fin 7 → List (BitVec 64)) : PoolCall → Prop
  | .popAgain call oldPacked since => Recent pops lists call.cls oldPacked since
  | .popProtect call oldPacked since | .popVerify call oldPacked since | .popNext call oldPacked since =>
    Recent pops lists call.cls oldPacked since ∧ ptr oldPacked ≠ 0
  | .popExchange call oldPacked nextPtr since => Recent pops lists call.cls oldPacked since ∧ ptr oldPacked ≠ 0 ∧
    (pops call.cls = since → nextPtr = next (ptr oldPacked))
  | .pushExchange _ _ node oldPacked => next node = ptr oldPacked
  | _ => True

-- Every block that malloc returned is in one place, of its own class.
structure Filed (s : LFMemoryPool Tid) (lists : Fin 7 → List (BitVec 64)) : Prop where
  places : Places (s.contents lists) fun p => (s.blocks p).isSome = true
  fits : ∀ place, ∀ p ∈ s.contents lists place, s.blocks p = some (blockSize place.cls)

-- lists is the ghost content of the free lists, fixed by the links in memory.
structure Kept (s : LFMemoryPool Tid) (lists : Fin 7 → List (BitVec 64)) : Prop where
  filed : Filed s lists
  sizes : ∀ size, ∀ p ∈ s.users size, 1 ≤ size ∧ size ≤ 4096
  short : ∀ p, (s.blocks p).isSome = true → p ≠ 0 ∧ Short p
  linked : ∀ cls, Linked 0 s.next (ptr (s.headPacked cls)) (lists cls)
  tags : ∀ cls, tag (s.headPacked cls) = BitVec.ofNat 16 (s.pops cls)
  sound : ∀ t, Sound s.next s.pops lists (s.calls t)

-- sizeClass rounds up.
theorem roundUp_enough (size turns cls : Nat) (bound : size ≤ 2 ^ (cls + turns)) : size ≤ 2 ^ roundUp size turns (2 ^ cls) cls := by
  induction turns generalizing cls with
  | zero => exact bound
  | succ turns ih =>
    unfold roundUp
    split
    · rw [Nat.shiftLeft_eq,Nat.pow_one,← Nat.pow_succ]
      have same : cls + 1 + turns = cls + (turns + 1) := by omega
      exact ih (cls + 1) (same ▸ bound)
    · rename_i covered
      exact Nat.le_of_not_lt covered

theorem sizeClass_val (size : Nat) : (sizeClass size).val + kMinClass = max kMinClass (min kMaxClass (roundUp size 64 1 0)) := by
  have bottom : kMinClass = 6 := rfl
  have top : kMaxClass = 12 := rfl
  unfold sizeClass
  dsimp only
  by_cases low : roundUp size 64 1 0 < kMinClass
  · rw [if_pos low,if_neg (by omega)]
    omega
  · rw [if_neg low]
    split <;> omega

theorem blockSize_enough (most : size ≤ 4096) : size ≤ blockSize (sizeClass size) := by
  have enough : size ≤ 2 ^ roundUp size 64 1 0 := roundUp_enough size 64 0 (Nat.le_trans most (by decide))
  rw [blockSize,Nat.one_shiftLeft,sizeClass_val]
  rcases Nat.le_total (roundUp size 64 1 0) kMaxClass with low | high
  · rw [Nat.min_eq_right low]
    exact Nat.le_trans enough (Nat.pow_le_pow_right (by decide) (Nat.le_max_right _ _))
  · rw [Nat.min_eq_left high]
    exact most

theorem popped_eq (oldPacked nextPtr : BitVec 64) : popped oldPacked nextPtr = pack nextPtr (tag oldPacked + 1) := by
  have wraps : ∀ n : Nat, n * 2 ^ 48 % 2 ^ 64 = n % 2 ^ 16 * 2 ^ 48 := fun n => Nat.mul_mod_mul_right (2 ^ 48) n (2 ^ 16)
  have shifted : ((tag oldPacked).zeroExtend 64 + 1) <<< 48 = (tag oldPacked + 1).zeroExtend 64 <<< 48 := by
    apply BitVec.eq_of_toNat_eq
    rw [BitVec.toNat_shiftLeft,BitVec.toNat_shiftLeft,Nat.shiftLeft_eq,Nat.shiftLeft_eq,wraps,wraps]
    congr 1
    simp
  rw [popped,pack,shifted]

theorem Sound.frame {next after : BitVec 64 → BitVec 64} {pops grown : Fin 7 → Nat} {lists others : Fin 7 → List (BitVec 64)}
    {call : PoolCall} (old : Sound next pops lists call) (grows : ∀ cls, pops cls ≤ grown cls)
    (stays : ∀ cls, grown cls = pops cls → ∀ p ∈ lists cls, p ∈ others cls ∧ after p = next p)
    (mine : ∀ cls left node oldPacked, call = .pushExchange cls left node oldPacked → after node = next node) :
    Sound after grown others call := by
  have recent : ∀ {cls oldPacked since}, Recent pops lists cls oldPacked since → Recent grown others cls oldPacked since := by
    intro cls oldPacked since given
    obtain ⟨below,version,listed⟩ := given
    refine ⟨Nat.le_trans below (grows cls),version,fun same real => ?_⟩
    have still : pops cls = since := Nat.le_antisymm (same ▸ grows cls) below
    exact (stays cls (same.trans still.symm) _ (listed still real)).1
  cases call with
  | popAgain => exact recent old
  | popProtect | popVerify | popNext => exact ⟨recent old.1,old.2⟩
  | popExchange call oldPacked nextPtr since =>
    obtain ⟨before,real,read⟩ := old
    refine ⟨recent before,real,fun same => ?_⟩
    obtain ⟨below,_,listed⟩ := before
    have still : pops call.cls = since := Nat.le_antisymm (same ▸ grows call.cls) below
    rw [read still,(stays call.cls (same.trans still.symm) _ (listed still real)).2]
  | pushExchange cls left node oldPacked => exact (mine _ _ _ _ rfl).trans old
  | _ => trivial

theorem Kept.recent (old : Kept s lists) (cls : Fin 7) : Recent s.pops lists cls (s.headPacked cls) (s.pops cls) := by
  refine ⟨Nat.le_refl _,old.tags cls,fun _ real => ?_⟩
  obtain ⟨rest,whole,_⟩ := (old.linked cls).pop real
  rw [whole]
  exact List.mem_cons_self

theorem Recent.sound {next : BitVec 64 → BitVec 64} {pops : Fin 7 → Nat} {call : Refill} {packed : BitVec 64} {since : Nat}
    (recent : Recent pops lists call.cls packed since) : Sound next pops lists (loaded call packed since) := by
  unfold loaded
  split
  · trivial
  · rename_i real
    exact ⟨recent,real⟩

theorem inHand_loaded (cls : Fin 7) (call : Refill) (packed : BitVec 64) (since : Nat) :
    inHand cls (loaded call packed since) = [] := by
  unfold loaded
  split <;> rfl

theorem Filed.same (old : Filed s lists) (equal : after.contents lists = s.contents lists) (blocks : after.blocks = s.blocks) :
    Filed after lists := by
  refine ⟨?_,?_⟩
  · rw [equal,blocks]
    exact old.places
  · rw [equal,blocks]
    exact old.fits

theorem Kept.hazard (old : Kept s lists) (hazard : Tid → BitVec 64) : Kept {s with hazard := hazard} lists := by
  refine ⟨old.filed.same (funext fun place => ?_) rfl,old.sizes,old.short,old.linked,old.tags,old.sound⟩
  cases place <;> rfl

variable [DecidableEq Tid]

theorem contents_put (s : LFMemoryPool Tid) (lists : Fin 7 → List (BitVec 64)) (t : Tid) (call : PoolCall) (same : ∀ cls, inHand cls call = inHand cls (s.calls t)) :
    (s.put t call).contents lists = s.contents lists := by
  funext place
  cases place with
  | hand u cls =>
    change inHand cls (Function.update s.calls t call u) = inHand cls (s.calls u)
    by_cases here : u = t
    · rw [here,Function.update_self,same]
    · rw [Function.update_of_ne here]
  | _ => rfl

theorem sound_put {next : BitVec 64 → BitVec 64} {pops : Fin 7 → Nat} {calls : Tid → PoolCall} {call : PoolCall}
    (others : ∀ u, u ≠ t → Sound next pops lists (calls u)) (here : Sound next pops lists call) (u : Tid) :
    Sound next pops lists (Function.update calls t call u) :=
  (Function.forall_update_iff calls fun _ call => Sound next pops lists call).mpr ⟨here,others⟩ u

-- A thread goes on with what it has in hand.
theorem Kept.goes (old : Kept s lists) (hand : ∀ cls, inHand cls call = inHand cls (s.calls t))
    (sound : Sound s.next s.pops lists call) : Kept (s.put t call) lists :=
  ⟨old.filed.same (contents_put s lists t call hand) rfl,old.sizes,old.short,old.linked,old.tags,
    sound_put (fun u _ => old.sound u) sound⟩

omit [DecidableEq Tid] in
-- A block outside the free lists is written to, by a user or by the push that
-- has it in hand.
theorem Kept.write (old : Kept s lists) (here : p ∈ s.contents lists place) (unlisted : ∀ cls, place ≠ .list cls)
    (mine : ∀ u cls left node oldPacked, s.calls u = .pushExchange cls left node oldPacked → place ≠ .hand u cls) (value : BitVec 64) :
    Kept {s with next := Function.update s.next p value} lists := by
  have outside : ∀ cls, ∀ q ∈ lists cls, Function.update s.next p value q = s.next q := by
    intro cls q listed
    refine Function.update_of_ne (fun same => unlisted cls ?_) _ _
    exact old.filed.places.alone p place (.list cls) here (same ▸ listed)
  refine ⟨old.filed.same (funext fun other => ?_) rfl,old.sizes,old.short,fun cls => (old.linked cls).frame (outside cls),
    old.tags,fun u => ?_⟩
  · cases other <;> rfl
  · refine (old.sound u).frame (fun _ => Nat.le_refl _) (fun cls _ q listed => ⟨listed,outside cls q listed⟩) ?_
    intro cls left node oldPacked pushing
    refine Function.update_of_ne (fun same => mine u cls left node oldPacked pushing ?_) _ _
    refine old.filed.places.alone p place (.hand u cls) here ?_
    change p ∈ inHand cls (s.calls u)
    rw [pushing,← same]
    simp [inHand]

@[simp] theorem contents_setCache_self (s : LFMemoryPool Tid) (nodes : List (BitVec 64)) :
    (s.setCache t cls nodes).contents lists (.cache t cls) = nodes := by
  simp [contents,setCache]

theorem contents_setCache (s : LFMemoryPool Tid) (nodes : List (BitVec 64)) (apart : place ≠ .cache t cls) :
    (s.setCache t cls nodes).contents lists place = s.contents lists place := by
  cases place with
  | cache u other =>
    change Function.update s.caches t _ u other = s.caches u other
    by_cases here : u = t
    · subst here
      have differ : other ≠ cls := fun same => apart (same ▸ rfl)
      rw [Function.update_self,Function.update_of_ne differ]
    · rw [Function.update_of_ne here]
  | _ => rfl

omit [DecidableEq Tid] in
@[simp] theorem contents_setUsers_self (s : LFMemoryPool Tid) (ptrs : List (BitVec 64)) :
    (s.setUsers size ptrs).contents lists (.user size) = ptrs := by
  simp [contents,setUsers]

omit [DecidableEq Tid] in
theorem contents_setUsers (s : LFMemoryPool Tid) (ptrs : List (BitVec 64)) (apart : place ≠ .user size) :
    (s.setUsers size ptrs).contents lists place = s.contents lists place := by
  cases place with
  | user other =>
    have differ : other ≠ size := fun same => apart (same ▸ rfl)
    exact Function.update_of_ne differ _ _
  | _ => rfl

@[simp] theorem contents_put_self (s : LFMemoryPool Tid) (call : PoolCall) :
    (s.put t call).contents lists (.hand t cls) = inHand cls call := by
  simp [contents,put]

-- A call that differs in one class of its hand.
theorem contents_put_other (s : LFMemoryPool Tid) (same : ∀ other, other ≠ cls → inHand other call = inHand other (s.calls t))
    (apart : place ≠ .hand t cls) : (s.put t call).contents lists place = s.contents lists place := by
  cases place with
  | hand u other =>
    change inHand other (Function.update s.calls t call u) = inHand other (s.calls u)
    by_cases here : u = t
    · subst here
      rw [Function.update_self,same other fun equal => apart (equal ▸ rfl)]
    · rw [Function.update_of_ne here]
  | _ => rfl

omit [DecidableEq Tid] in
-- A block moves between two places of its class.
theorem Filed.moved {s after : LFMemoryPool Tid} {others : Fin 7 → List (BitVec 64)} (old : Filed s lists) (p : BitVec 64)
    (source target : Place Tid) (apart : source ≠ target) (left : (s.contents lists source).Perm (p :: after.contents others source))
    (arrived : (after.contents others target).Perm (p :: s.contents lists target))
    (elsewhere : ∀ place, place ≠ source → place ≠ target → after.contents others place = s.contents lists place)
    (class_ : source.cls = target.cls) (blocks : after.blocks = s.blocks) : Filed after others := by
  refine ⟨blocks ▸ old.places.move apart left arrived elsewhere,fun place q here => ?_⟩
  rw [blocks]
  by_cases first : place = source
  · rw [first] at here ⊢
    exact old.fits source q (left.mem_iff.mpr (List.mem_cons_of_mem _ here))
  · by_cases last : place = target
    · rw [last] at here ⊢
      rcases List.mem_cons.mp (arrived.mem_iff.mp here) with same | before
      · rw [same,← class_]
        exact old.fits source p (left.mem_iff.mpr List.mem_cons_self)
      · exact old.fits target q before
    · rw [elsewhere place first last] at here
      exact old.fits place q here

-- A cached block goes out to a user.
theorem Kept.takeBack (old : Kept s lists) (empty : ∀ cls, inHand cls (s.calls t) = []) (cached : s.caches t cls = node :: rest)
    (class_ : cls = sizeClass size) (sized : 1 ≤ size ∧ size ≤ 4096) :
    Kept (((s.setCache t cls rest).setUsers size (node :: s.users size)).put t .idle) lists := by
  have quiet := contents_put ((s.setCache t cls rest).setUsers size (node :: s.users size)) lists t .idle fun cls => (empty cls).symm
  have filed : Filed (((s.setCache t cls rest).setUsers size (node :: s.users size)).put t .idle) lists := by
    refine old.filed.moved node (.cache t cls) (.user size) (fun same => by cases same) ?_ ?_ ?_ class_ rfl
    · rw [quiet,contents_setUsers _ _ fun same => by cases same]
      rw [contents_setCache_self]
      exact .of_eq cached
    · rw [quiet,contents_setUsers_self]
      rfl
    · intro place first last
      rw [quiet,contents_setUsers _ _ last,contents_setCache _ _ first]
  refine ⟨filed,fun other p there => ?_,old.short,old.linked,old.tags,sound_put (fun u _ => old.sound u) trivial⟩
  change p ∈ Function.update s.users size _ other at there
  by_cases same : other = size
  · rwa [same]
  · rw [Function.update_of_ne same] at there
    exact old.sizes other p there

-- A user's block comes back to a cache.
theorem Kept.deallocated (old : Kept s lists) (empty : ∀ cls, inHand cls (s.calls t) = []) (out : p ∈ s.users size)
    (none : ∀ cls, inHand cls call = []) (sound : Sound s.next s.pops lists call) :
    Kept (((s.setUsers size ((s.users size).erase p)).setCache t (sizeClass size) (p :: s.caches t (sizeClass size))).put t call) lists := by
  have quiet := contents_put ((s.setUsers size ((s.users size).erase p)).setCache t (sizeClass size) (p :: s.caches t (sizeClass size)))
    lists t call fun cls => (none cls).trans (empty cls).symm
  have filed : Filed (((s.setUsers size ((s.users size).erase p)).setCache t (sizeClass size)
      (p :: s.caches t (sizeClass size))).put t call) lists := by
    refine old.filed.moved p (.user size) (.cache t (sizeClass size)) (fun same => by cases same) ?_ ?_ ?_ rfl rfl
    · rw [quiet,contents_setCache _ _ fun same => by cases same]
      rw [contents_setUsers_self]
      exact List.perm_cons_erase out
    · rw [quiet,contents_setCache_self]
      rfl
    · intro place first last
      rw [quiet,contents_setCache _ _ last,contents_setUsers _ _ first]
  refine ⟨filed,fun other q there => ?_,old.short,old.linked,old.tags,sound_put (fun u _ => old.sound u) sound⟩
  change q ∈ Function.update s.users size _ other at there
  by_cases same : other = size
  · rw [same,Function.update_self] at there
    rw [same]
    exact old.sizes size q (List.mem_of_mem_erase there)
  · rw [Function.update_of_ne same] at there
    exact old.sizes other q there

-- The block of a pop that succeeded goes to the thread's cache.
theorem Kept.cached (old : Kept s lists) (won : s.calls t = .popWon refill head) (none : ∀ cls, inHand cls call = [])
    (sound : Sound s.next s.pops lists call) :
    Kept ((s.setCache t refill.cls (head :: s.caches t refill.cls)).put t call) lists := by
  have held : ∀ cls, inHand cls (s.calls t) = if refill.cls = cls then [head] else [] := by
    intro cls
    rw [won]
    rfl
  have others : ∀ cls, cls ≠ refill.cls → inHand cls call = inHand cls (s.calls t) := by
    intro cls apart
    rw [none,held,if_neg fun same => apart same.symm]
  have filed : Filed ((s.setCache t refill.cls (head :: s.caches t refill.cls)).put t call) lists := by
    refine old.filed.moved head (.hand t refill.cls) (.cache t refill.cls) (fun same => by cases same) ?_ ?_ ?_ rfl rfl
    · rw [contents_put_self,none,contents,held,if_pos rfl]
    · rw [contents_put_other (s.setCache t refill.cls _) others fun same => by cases same]
      rw [contents_setCache_self]
      rfl
    · intro place first last
      rw [contents_put_other (s.setCache t refill.cls _) others first,contents_setCache _ _ last]
  exact ⟨filed,old.sizes,old.short,old.linked,old.tags,sound_put (fun u _ => old.sound u) sound⟩

-- The back of the cache comes into the hands of a push.
theorem Kept.drained (old : Kept s lists) (empty : ∀ cls, inHand cls (s.calls t) = []) (cached : s.caches t cls = node :: rest) :
    Kept ((s.setCache t cls rest).put t (.pushLoad cls left node)) lists := by
  have others : ∀ other, other ≠ cls → inHand other (.pushLoad cls left node) = inHand other (s.calls t) := by
    intro other apart
    rw [empty,inHand,if_neg fun same => apart same.symm]
  have filed : Filed ((s.setCache t cls rest).put t (.pushLoad cls left node)) lists := by
    refine old.filed.moved node (.cache t cls) (.hand t cls) (fun same => by cases same) ?_ ?_ ?_ rfl rfl
    · rw [contents_put_other (s.setCache t cls rest) others fun same => by cases same]
      rw [contents_setCache_self]
      exact .of_eq cached
    · rw [contents_put_self,contents,empty,inHand,if_pos rfl]
    · intro place first last
      rw [contents_put_other (s.setCache t cls rest) others last,contents_setCache _ _ first]
  exact ⟨filed,old.sizes,old.short,old.linked,old.tags,sound_put (fun u _ => old.sound u) trivial⟩

omit [DecidableEq Tid] in
theorem Kept.held (old : Kept s lists) (here : p ∈ s.contents lists place) : p ≠ 0 ∧ Short p :=
  old.short p ((old.filed.places.known_iff p).mpr ⟨place,here⟩)

-- A push links its block in front of the list: whatever the head's past, the
-- block's next field is the head's pointer now.
theorem Kept.pushed (old : Kept s lists) (here : s.calls t = .pushExchange cls left node (s.headPacked cls)) :
    Kept ((s.setHead cls (pack node (tag (s.headPacked cls)))).put t (.drain cls left))
      (Function.update lists cls (node :: lists cls)) := by
  have hand : ∀ other, inHand other (s.calls t) = if cls = other then [node] else [] := by
    intro other
    rw [here]
    rfl
  have mine : node ∈ s.contents lists (.hand t cls) := by
    rw [contents,hand,if_pos rfl]
    exact List.mem_cons_self
  have link := old.sound t
  rw [here] at link
  obtain ⟨real,short⟩ := old.held mine
  have others : ∀ other, other ≠ cls → inHand other (.drain cls left) = inHand other (s.calls t) := by
    intro other apart
    rw [hand,if_neg fun same => apart same.symm]
    rfl
  have filed : Filed ((s.setHead cls (pack node (tag (s.headPacked cls)))).put t (.drain cls left))
      (Function.update lists cls (node :: lists cls)) := by
    refine old.filed.moved node (.hand t cls) (.list cls) (fun same => by cases same) ?_ ?_ ?_ rfl rfl
    · rw [contents_put_self,contents,hand,if_pos rfl]
      rfl
    · simp [contents]
    · intro place first last
      rw [contents_put_other (s.setHead cls _) others first]
      cases place with
      | list other =>
        have differ : other ≠ cls := fun same => last (same ▸ rfl)
        exact Function.update_of_ne differ _ _
      | _ => rfl
  refine ⟨filed,old.sizes,old.short,fun other => ?_,fun other => ?_,sound_put (fun u _ => ?_) trivial⟩
  · change Linked 0 s.next (ptr (Function.update s.headPacked cls _ other)) (Function.update lists cls _ other)
    by_cases same : other = cls
    · rw [same,Function.update_self,Function.update_self,ptr_pack short]
      refine .cons real ?_
      rw [link]
      exact old.linked cls
    · rw [Function.update_of_ne same,Function.update_of_ne same]
      exact old.linked other
  · change tag (Function.update s.headPacked cls _ other) = BitVec.ofNat 16 (s.pops other)
    by_cases same : other = cls
    · rw [same,Function.update_self,tag_pack short]
      exact old.tags cls
    · rw [Function.update_of_ne same]
      exact old.tags other
  · refine (old.sound u).frame (fun _ => Nat.le_refl _) (fun other _ p listed => ⟨?_,rfl⟩) fun _ _ _ _ _ => rfl
    by_cases same : other = cls
    · rw [same] at listed ⊢
      rw [Function.update_self]
      exact List.mem_cons_of_mem _ listed
    · rwa [Function.update_of_ne same]

-- Equal tags with fewer than 2^16 pops between them: there was none.
theorem same_pops {since pops : Nat} (below : since ≤ pops) (few : pops < since + 2 ^ 16)
    (equal : BitVec.ofNat 16 pops = BitVec.ofNat 16 since) : pops = since := by
  have both := congrArg BitVec.toNat equal
  simp only [BitVec.toNat_ofNat] at both
  omega

omit [DecidableEq Tid] in
theorem Kept.linked_short (old : Kept s lists) (path : Linked 0 s.next first rest) (inside : ∀ p ∈ rest, p ∈ lists cls) : Short first := by
  cases path with
  | nil => exact short_zero
  | cons _ _ =>
    have here : first ∈ s.contents lists (.list cls) := inside first List.mem_cons_self
    exact (old.held here).2

-- A pop whose exchange succeeds takes the first block of the list: its word has
-- the tag of the load, so no other pop came between and the link it read holds.
theorem Kept.popped (old : Kept s lists) (here : s.calls t = .popExchange call (s.headPacked call.cls) nextPtr since)
    (few : s.pops call.cls < since + 2 ^ 16) : ∃ later,
      Kept {(s.setHead call.cls (popped (s.headPacked call.cls) nextPtr)).put t (.popWon call (ptr (s.headPacked call.cls))) with
        pops := Function.update s.pops call.cls (s.pops call.cls + 1)} later := by
  have known := old.sound t
  rw [here] at known
  obtain ⟨⟨below,version,_⟩,real,read⟩ := known
  have unpopped := same_pops below few ((old.tags call.cls).symm.trans version)
  obtain ⟨rest,whole,path⟩ := (old.linked call.cls).pop real
  rw [← read unpopped] at path
  have inside : ∀ p ∈ rest, p ∈ lists call.cls := fun p listed => whole ▸ List.mem_cons_of_mem _ listed
  have short := old.linked_short path inside
  have others : ∀ other, other ≠ call.cls →
      inHand other (.popWon call (ptr (s.headPacked call.cls))) = inHand other (s.calls t) := by
    intro other apart
    rw [here,inHand,if_neg fun same => apart same.symm]
    rfl
  refine ⟨Function.update lists call.cls rest,?_,old.sizes,old.short,fun other => ?_,fun other => ?_,sound_put (fun u _ => ?_) trivial⟩
  · have filed : Filed ((s.setHead call.cls (LFMemoryPool.popped (s.headPacked call.cls) nextPtr)).put t
        (.popWon call (ptr (s.headPacked call.cls)))) (Function.update lists call.cls rest) := by
      refine old.filed.moved (ptr (s.headPacked call.cls)) (.list call.cls) (.hand t call.cls) (fun same => by cases same) ?_ ?_ ?_ rfl rfl
      · simp [contents,whole]
      · rw [contents_put_self,contents,here,inHand,if_pos rfl]
        rfl
      · intro place first last
        rw [contents_put_other (s.setHead call.cls _) others last]
        cases place with
        | list other =>
          have differ : other ≠ call.cls := fun same => first (same ▸ rfl)
          exact Function.update_of_ne differ _ _
        | _ => rfl
    exact filed.same (funext fun place => by cases place <;> rfl) rfl
  · change Linked 0 s.next (ptr (Function.update s.headPacked call.cls _ other)) (Function.update lists call.cls rest other)
    by_cases same : other = call.cls
    · rw [same,Function.update_self,Function.update_self,popped_eq,ptr_pack short]
      exact path
    · rw [Function.update_of_ne same,Function.update_of_ne same]
      exact old.linked other
  · change tag (Function.update s.headPacked call.cls _ other) = BitVec.ofNat 16 (Function.update s.pops call.cls _ other)
    by_cases same : other = call.cls
    · rw [same,Function.update_self,Function.update_self,popped_eq,tag_pack short,old.tags,BitVec.ofNat_add]
      rfl
    · rw [Function.update_of_ne same,Function.update_of_ne same]
      exact old.tags other
  · refine (old.sound u).frame (fun other => ?_) (fun other same p listed => ⟨?_,rfl⟩) fun _ _ _ _ _ => rfl
    · change s.pops other ≤ Function.update s.pops call.cls (s.pops call.cls + 1) other
      by_cases same : other = call.cls
      · rw [same,Function.update_self]
        exact Nat.le_succ _
      · rw [Function.update_of_ne same]
    · change Function.update s.pops call.cls (s.pops call.cls + 1) other = s.pops other at same
      by_cases there : other = call.cls
      · rw [there,Function.update_self] at same
        omega
      · rwa [Function.update_of_ne there]

-- malloc's block is new, and large enough for its class.
theorem Kept.malloced (old : Kept s lists) (here : s.calls t = .malloc (sizeClass size) size) (sized : 1 ≤ size ∧ size ≤ 4096)
    (fresh : s.blocks p = none) (real : p ≠ 0) (short : Short p) :
    Kept {(s.setUsers size (p :: s.users size)).put t .idle with
      blocks := Function.update s.blocks p (some (blockSize (sizeClass size)))} lists := by
  have quiet := contents_put (s.setUsers size (p :: s.users size)) lists t .idle fun cls =>
    (congrArg (inHand cls) here).symm
  have unknown : ¬(s.blocks p).isSome = true := by simp [fresh]
  have grown : ∀ q, (Function.update s.blocks p (some (blockSize (sizeClass size))) q).isSome = true ↔
      (s.blocks q).isSome = true ∨ q = p := by
    intro q
    by_cases same : q = p
    · simp [same]
    · simp [same]
  have later : ∀ place, LFMemoryPool.contents {(s.setUsers size (p :: s.users size)).put t .idle with
      blocks := Function.update s.blocks p (some (blockSize (sizeClass size)))} lists place =
        (s.setUsers size (p :: s.users size)).contents lists place := by
    intro place
    rw [← quiet]
    cases place <;> rfl
  have known : ∀ q, (s.blocks q).isSome = true → Function.update s.blocks p (some (blockSize (sizeClass size))) q = s.blocks q := by
    intro q some_
    refine Function.update_of_ne (fun same => ?_) _ _
    rw [same] at some_
    exact unknown some_
  refine ⟨⟨old.filed.places.enter unknown (.user size) ?_ ?_ grown,fun place q there => ?_⟩,fun other q there => ?_,
    fun q some_ => ?_,old.linked,old.tags,sound_put (fun u _ => old.sound u) trivial⟩
  · rw [later,contents_setUsers_self]
    rfl
  · intro place apart
    rw [later,contents_setUsers _ _ apart]
  · rw [later] at there
    change Function.update s.blocks p _ q = _
    by_cases out : place = .user size
    · rw [out,contents_setUsers_self] at there
      rw [out]
      rcases List.mem_cons.mp there with same | before
      · rw [same,Function.update_self]
        rfl
      · have fits := old.filed.fits (.user size) q before
        rw [known q (by rw [fits]; rfl)]
        exact fits
    · rw [contents_setUsers _ _ out] at there
      have fits := old.filed.fits place q there
      rw [known q (by rw [fits]; rfl)]
      exact fits
  · change q ∈ Function.update s.users size _ other at there
    by_cases same : other = size
    · rwa [same]
    · rw [Function.update_of_ne same] at there
      exact old.sizes other q there
  · rcases (grown q).mp some_ with before | same
    · exact old.short q before
    · rw [same]
      exact ⟨real,short⟩

end NewMuduo.LFMemoryPool
