import NewMuduo.FreeLists

namespace NewMuduo.LFMemoryPool
open TaggedPointer
variable {Tid : Type} [DecidableEq Tid] {s : LFMemoryPool Tid} {t : Tid} {lists : Fin 7 → List (BitVec 64)}

-- The class and size of a call to allocate.
def wants : PoolCall → Option (Fin 7 × Nat)
  | .popLoad call | .popProtect call _ _ | .popVerify call _ _ | .popNext call _ _ | .popExchange call _ _ _ | .popAgain call _ _
  | .popWon call _ => some (call.cls,call.size)
  | .take cls size | .malloc cls size => some (cls,size)
  | _ => none

def Asked (s : LFMemoryPool Tid) : Prop :=
  ∀ t cls size, wants (s.calls t) = some (cls,size) → cls = sizeClass size ∧ 1 ≤ size ∧ size ≤ 4096

theorem wants_loaded (call : Refill) (packed : BitVec 64) (since : Nat) :
    wants (loaded call packed since) = some (call.cls,call.size) := by
  unfold loaded
  split <;> rfl

theorem Asked.put (old : Asked s) (calls : after.calls = Function.update s.calls t call)
    (same : ∀ cls size, wants call = some (cls,size) → wants (s.calls t) = some (cls,size)) : Asked after := by
  intro u cls size wanted
  rw [calls] at wanted
  by_cases here : u = t
  · rw [here,Function.update_self] at wanted
    exact old t cls size (same cls size wanted)
  · rw [Function.update_of_ne here] at wanted
    exact old u cls size wanted

theorem takeBack_calls (s : LFMemoryPool Tid) (t : Tid) (cls : Fin 7) (size : Nat) (otherwise : PoolCall) :
    (s.takeBack t cls size otherwise).calls = Function.update s.calls t .idle ∨
      (s.takeBack t cls size otherwise).calls = Function.update s.calls t otherwise := by
  unfold takeBack
  split
  · exact .inr rfl
  · exact .inl rfl

theorem Asked.step (old : Asked s) (t : Tid) (spurious : Bool) : Asked (s.step t spurious) := by
  cases here : s.calls t with
  | idle | malloc =>
    simp only [LFMemoryPool.step,here]
    exact old
  | popLoad call | popAgain call packed since =>
    simp only [LFMemoryPool.step,here]
    refine old.put rfl fun cls size wanted => ?_
    rw [wants_loaded] at wanted
    rw [here]
    exact wanted
  | popProtect | popNext | pushLoad | pushLink =>
    simp only [LFMemoryPool.step,here]
    refine old.put rfl fun cls size wanted => ?_
    rw [here]
    exact wanted
  | popVerify | popExchange | pushExchange =>
    simp only [LFMemoryPool.step,here]
    split <;>
    · refine old.put rfl fun cls size wanted => ?_
      rw [here]
      exact wanted
  | popWon call head =>
    simp only [LFMemoryPool.step,here]
    refine old.put rfl fun cls size wanted => ?_
    rw [here]
    split at wanted <;> exact wanted
  | take cls size =>
    simp only [LFMemoryPool.step,here]
    rcases takeBack_calls s t cls size (.malloc cls size) with calls | calls
    · exact old.put calls fun _ _ wanted => by cases wanted
    · refine old.put calls fun other asked wanted => ?_
      rw [here]
      exact wanted
  | drain cls left =>
    cases left with
    | zero =>
      simp only [LFMemoryPool.step,here]
      exact old.put rfl fun _ _ wanted => by cases wanted
    | succ left =>
      simp only [LFMemoryPool.step,here]
      split <;> exact old.put rfl fun _ _ wanted => by cases wanted

theorem Kept.step (old : Kept s lists) (asked : Asked s) (t : Tid) (spurious : Bool) (few : FewPops s (.step t spurious)) :
    ∃ later, Kept (s.step t spurious) later := by
  have known := old.sound t
  cases here : s.calls t with
  | idle | malloc =>
    simp only [LFMemoryPool.step,here]
    exact ⟨lists,old⟩
  | popLoad call =>
    simp only [LFMemoryPool.step,here]
    refine ⟨lists,old.goes (fun cls => ?_) (old.recent call.cls).sound⟩
    rw [inHand_loaded,here]
    rfl
  | popProtect call packed since =>
    simp only [LFMemoryPool.step,here]
    rw [here] at known
    exact ⟨lists,(old.hazard _).goes (fun cls => (congrArg (inHand cls) here).symm) known⟩
  | popVerify call packed since =>
    simp only [LFMemoryPool.step,here]
    rw [here] at known
    split
    · exact ⟨lists,old.goes (fun cls => (congrArg (inHand cls) here).symm) (old.recent call.cls)⟩
    · exact ⟨lists,old.goes (fun cls => (congrArg (inHand cls) here).symm) known⟩
  | popNext call packed since =>
    simp only [LFMemoryPool.step,here]
    rw [here] at known
    exact ⟨lists,old.goes (fun cls => (congrArg (inHand cls) here).symm) ⟨known.1,known.2,fun _ => rfl⟩⟩
  | popExchange call packed nextPtr since =>
    simp only [LFMemoryPool.step,here]
    split
    · rename_i won
      obtain ⟨rfl,_⟩ := won
      simp only [FewPops,here] at few
      exact old.popped here few
    · exact ⟨lists,old.goes (fun cls => (congrArg (inHand cls) here).symm) (old.recent call.cls)⟩
  | popAgain call packed since =>
    simp only [LFMemoryPool.step,here]
    rw [here] at known
    refine ⟨lists,(old.hazard _).goes (fun cls => ?_) (Recent.sound known)⟩
    rw [inHand_loaded]
    exact (congrArg (inHand cls) here).symm
  | popWon call head =>
    simp only [LFMemoryPool.step,here]
    have later := old.hazard (Function.update s.hazard t 0)
    split
    · exact ⟨lists,later.cached here (fun _ => rfl) trivial⟩
    · exact ⟨lists,later.cached here (fun _ => rfl) trivial⟩
  | take cls size =>
    simp only [LFMemoryPool.step,here]
    obtain ⟨class_,sized⟩ := asked t cls size (by rw [here]; rfl)
    have empty : ∀ cls, inHand cls (s.calls t) = [] := fun cls => congrArg (inHand cls) here
    unfold LFMemoryPool.takeBack
    split
    · exact ⟨lists,old.goes (fun cls => (empty cls).symm) trivial⟩
    · rename_i cached
      exact ⟨lists,old.takeBack empty cached class_ sized⟩
  | drain cls left =>
    have empty : ∀ cls, inHand cls (s.calls t) = [] := fun cls => congrArg (inHand cls) here
    cases left with
    | zero =>
      simp only [LFMemoryPool.step,here]
      exact ⟨lists,old.goes (fun cls => (empty cls).symm) trivial⟩
    | succ left =>
      simp only [LFMemoryPool.step,here]
      split
      · exact ⟨lists,old.goes (fun cls => (empty cls).symm) trivial⟩
      · rename_i cached
        exact ⟨lists,old.drained empty cached⟩
  | pushLoad cls left node =>
    simp only [LFMemoryPool.step,here]
    exact ⟨lists,old.goes (fun cls => (congrArg (inHand cls) here).symm) trivial⟩
  | pushLink cls left node packed =>
    simp only [LFMemoryPool.step,here]
    have mine : node ∈ s.contents lists (.hand t cls) := by
      rw [contents,here,inHand,if_pos rfl]
      exact List.mem_cons_self
    have written := old.write mine (fun _ same => (by cases same)) ?_ (ptr packed)
    · refine ⟨lists,written.goes (fun cls => (congrArg (inHand cls) here).symm) ?_⟩
      exact Function.update_self _ _ _
    · intro u other left node packed pushing same
      cases same
      rw [here] at pushing
      cases pushing
  | pushExchange cls left node packed =>
    simp only [LFMemoryPool.step,here]
    split
    · rename_i won
      obtain ⟨rfl,_⟩ := won
      exact ⟨_,old.pushed here⟩
    · exact ⟨lists,old.goes (fun cls => (congrArg (inHand cls) here).symm) trivial⟩

omit [DecidableEq Tid] in
theorem kept_new (memory : BitVec 64 → BitVec 64) : Kept (new memory : LFMemoryPool Tid) fun _ => [] := by
  have bare : ∀ place, contents (new memory : LFMemoryPool Tid) (fun _ => []) place = [] := by
    intro place
    cases place <;> rfl
  refine ⟨⟨.none (fun _ known => by cases known) bare,fun place p here => ?_⟩,fun _ _ here => ?_,fun _ known => ?_,
    fun _ => ?_,fun _ => (by decide : tag 0 = BitVec.ofNat 16 0),fun _ => trivial⟩
  · rw [bare] at here
    cases here
  · cases here
  · cases known
  · have null : ptr 0 = 0 := by decide
    change Linked 0 memory (ptr 0) []
    rw [null]
    exact .nil

theorem idle_calls {call : PoolCall} (found : PoolCall.isIdle call = true) : call = .idle := by
  cases call with
  | idle => rfl
  | _ => cases found

theorem kept_apply (asked : Asked s) (old : Kept s lists) (label : Label Tid) (able : s.allowed label = true)
    (few : FewPops s label) : Asked (s.apply label) ∧ ∃ later, Kept (s.apply label) later := by
  cases label with
  | allocate t size =>
    simp only [allowed,Bool.and_eq_true,decide_eq_true_eq] at able
    obtain ⟨⟨idle,least⟩,most⟩ := able
    have here := idle_calls idle
    have empty : ∀ cls, inHand cls (s.calls t) = [] := fun cls => congrArg (inHand cls) here
    constructor
    · intro u cls wanted given
      rcases takeBack_calls s t (sizeClass size) size (.popLoad ⟨sizeClass size,size,0⟩) with calls | calls
      · rw [apply,allocate,calls] at given
        by_cases same : u = t
        · rw [same,Function.update_self] at given
          cases given
        · rw [Function.update_of_ne same] at given
          exact asked u cls wanted given
      · rw [apply,allocate,calls] at given
        by_cases same : u = t
        · rw [same,Function.update_self] at given
          cases given
          exact ⟨rfl,least,most⟩
        · rw [Function.update_of_ne same] at given
          exact asked u cls wanted given
    · unfold apply allocate LFMemoryPool.takeBack
      dsimp only
      split
      · exact ⟨lists,old.goes (fun cls => (empty cls).symm) trivial⟩
      · rename_i cached
        exact ⟨lists,old.takeBack empty cached rfl ⟨least,most⟩⟩
  | deallocate t p size =>
    simp only [allowed,Bool.and_eq_true,decide_eq_true_eq] at able
    obtain ⟨idle,out⟩ := able
    have here := idle_calls idle
    have empty : ∀ cls, inHand cls (s.calls t) = [] := fun cls => congrArg (inHand cls) here
    unfold apply deallocate
    dsimp only
    split
    · exact ⟨asked.put rfl fun _ _ wanted => (by cases wanted),lists,old.deallocated empty out (fun _ => rfl) trivial⟩
    · exact ⟨asked.put rfl fun _ _ wanted => (by cases wanted),lists,old.deallocated empty out (fun _ => rfl) trivial⟩
  | malloc t p =>
    simp only [allowed,Bool.and_eq_true,decide_eq_true_eq,Option.isNone_iff_eq_none] at able
    obtain ⟨⟨⟨_,fresh⟩,real⟩,short⟩ := able
    unfold apply mallocReturns
    dsimp only
    split
    · rename_i cls size here
      obtain ⟨rfl,sized⟩ := asked t cls size (by rw [here]; rfl)
      exact ⟨asked.put rfl fun _ _ wanted => (by cases wanted),lists,old.malloced here sized fresh real short⟩
    · exact ⟨asked,lists,old⟩
  | overwrite p value size =>
    simp only [allowed,decide_eq_true_eq] at able
    have here : p ∈ s.contents lists (.user size) := able
    exact ⟨asked,lists,old.write here (fun _ same => (by cases same)) (fun _ _ _ _ _ _ same => (by cases same)) value⟩
  | step t spurious => exact ⟨asked.step t spurious,old.step asked t spurious few⟩

theorem kept_preserves : (machine Tid).Preserves FewPops fun s => Asked s ∧ ∃ lists, Kept s lists := by
  refine ⟨?_,?_⟩
  · intro s origin
    obtain ⟨memory,rfl⟩ := origin
    exact ⟨fun _ _ _ wanted => (by cases wanted),_,kept_new memory⟩
  · intro s label after old few taken
    obtain ⟨able,rfl⟩ := Machine.guarded_parts.mp taken
    obtain ⟨asked,lists,old⟩ := old
    exact kept_apply asked old label able few

-- At every point of every interleaving each block from malloc is in one place,
-- and the blocks out to users are large enough.
theorem blocks_in_one_place (path : (machine Tid).ReachedUnder FewPops s) : ∃ lists,
    (∀ cls, Linked 0 s.next (ptr (s.headPacked cls)) (lists cls)) ∧
    (∀ p, (s.blocks p).isSome = true ↔ ∃ place, p ∈ s.contents lists place) ∧
    (∀ p place other, p ∈ s.contents lists place → p ∈ s.contents lists other → place = other) ∧
    (∀ place, (s.contents lists place).Nodup) ∧
    (∀ place, ∀ p ∈ s.contents lists place, s.blocks p = some (blockSize place.cls)) ∧
    ∀ size, ∀ p ∈ s.users size, ∃ bytes, s.blocks p = some bytes ∧ size ≤ bytes := by
  obtain ⟨_,lists,old⟩ := kept_preserves.reached path
  refine ⟨lists,old.linked,old.filed.places.known_iff,old.filed.places.alone,old.filed.places.once,old.filed.fits,fun size p out => ?_⟩
  exact ⟨_,old.filed.fits (.user size) p out,blockSize_enough (old.sizes size p out).2⟩

-- A block allocated by one thread, given back by another and handed out again.
def passedOn : List (Label Bool) :=
  [.allocate true 100,.step true false,.step true false,.malloc true 0x1000,.overwrite 0x1000 7 100,
    .deallocate false 0x1000 100,.allocate false 70]

theorem passedOn_in_one_place : ∃ s, (machine Bool).run (new fun _ => 0) passedOn = some s ∧ s.users 70 = [0x1000] ∧
    ∀ size, ∀ p ∈ s.users size, ∃ bytes, s.blocks p = some bytes ∧ size ≤ bytes := by
  have ran : ∃ s, (machine Bool).run (new fun _ => 0) passedOn = some s ∧ s.users 70 = [0x1000] := ⟨_,rfl,rfl⟩
  obtain ⟨s,ran,out⟩ := ran
  have met : (machine Bool).Meets FewPops (new fun _ => 0) passedOn := by
    unfold passedOn
    iterate 7
      refine .cons trivial rfl ?_
    trivial
  have origin : (machine Bool).start (new fun _ => 0) := ⟨_,rfl⟩
  obtain ⟨_,_,_,_,_,_,sized⟩ := blocks_in_one_place ((Machine.ReachedUnder.start origin).along met ran)
  exact ⟨s,ran,out,sized⟩

end NewMuduo.LFMemoryPool
