import NewMuduo.PoolBlocks

namespace NewMuduo.LFMemoryPool
open TaggedPointer
variable {Tid : Type} {s other : LFMemoryPool Tid} {t : Tid} {lists : Fin 7 → List (BitVec 64)} {label : Label Tid}
  {memory : BitVec 64 → BitVec 64} {calls : Tid → PoolCall}

-- A call without the link that its pop has read, and a label without what it
-- writes.
def unread : PoolCall → PoolCall
  | .popExchange call oldPacked _ since => .popExchange call oldPacked 0 since
  | call => call

def unwritten : Label Tid → Label Tid
  | .overwrite p _ size => .overwrite p 0 size
  | label => label

-- The same pool over another memory, with pops that may have read other links.
def onMemory (s : LFMemoryPool Tid) (memory : BitVec 64 → BitVec 64) (calls : Tid → PoolCall) : LFMemoryPool Tid :=
  {s with next := memory, calls := calls}

def Over (s other : LFMemoryPool Tid) : Prop :=
  ∃ memory calls, other = s.onMemory memory calls ∧ ∀ t, unread (calls t) = unread (s.calls t)

-- The free lists after a step: an exchange takes the first block or adds one.
def relisted (s : LFMemoryPool Tid) (lists : Fin 7 → List (BitVec 64)) : Label Tid → Fin 7 → List (BitVec 64)
  | .step t spurious =>
    match s.calls t with
    | .popExchange call oldPacked _ _ =>
      if s.headPacked call.cls = oldPacked ∧ spurious = false then Function.update lists call.cls (lists call.cls).tail else lists
    | .pushExchange cls _ node oldPacked =>
      if s.headPacked cls = oldPacked ∧ spurious = false then Function.update lists cls (node :: lists cls) else lists
    | _ => lists
  | _ => lists

theorem Kept.unlinked (old : Kept s lists) (here : p ∈ s.contents lists place) (apart : ∀ cls, place ≠ .hand t cls) (cls : Fin 7)
    (left : Nat) (packed : BitVec 64) : s.calls t ≠ .pushLink cls left p packed := by
  intro pushing
  refine apart cls (old.filed.places.alone p place (.hand t cls) here ?_)
  rw [contents,pushing,inHand,if_pos rfl]
  exact List.mem_cons_self

-- An exchange about to succeed has read the link of the first block.
theorem Kept.link_read (old : Kept s lists) (here : s.calls t = .popExchange call (s.headPacked call.cls) nextPtr since)
    (few : s.pops call.cls < since + 2 ^ 16) :
    ∃ rest, lists call.cls = ptr (s.headPacked call.cls) :: rest ∧ Linked 0 s.next nextPtr rest := by
  have known := old.sound t
  rw [here] at known
  obtain ⟨⟨below,version,_⟩,real,read⟩ := known
  obtain ⟨rest,whole,path⟩ := (old.linked call.cls).pop real
  rw [← read (same_pops below few ((old.tags call.cls).symm.trans version))] at path
  exact ⟨rest,whole,path⟩

-- Both pools have the same blocks in the same lists, so the links that count
-- are the same whatever else either memory holds.
theorem link_same {refill : Refill} {link read : BitVec 64} (old : Kept s lists) (kept : Kept (s.onMemory memory calls) lists)
    (here : s.calls t = .popExchange refill (s.headPacked refill.cls) link since)
    (there : calls t = .popExchange refill (s.headPacked refill.cls) read since) (few : s.pops refill.cls < since + 2 ^ 16) :
    read = link := by
  obtain ⟨rest,whole,path⟩ := old.link_read here few
  obtain ⟨other,also,beside⟩ := kept.link_read there few
  have same : other = rest := (List.cons.inj (also.symm.trans whole)).2
  rw [same] at beside
  exact path.start_unique beside

theorem unread_parts {call other : PoolCall} (same : unread other = unread call) : other = call ∨ ∃ refill packed link read since,
    call = .popExchange refill packed link since ∧ other = .popExchange refill packed read since := by
  cases call with
  | popExchange refill packed link since =>
    cases other with
    | popExchange _ _ read _ =>
      cases same
      exact .inr ⟨refill,packed,link,read,since,rfl,rfl⟩
    | _ => cases same
  | _ =>
    cases other with
    | popExchange => cases same
    | _ => exact .inl same

-- What does not look at the link is the same of both calls.
theorem unread_same {Seen : Type} (sees : PoolCall → Seen) (blind : ∀ call, sees (unread call) = sees call) {call other : PoolCall}
    (same : unread other = unread call) : sees other = sees call := by
  rw [← blind other,same,blind call]

theorem Over.ite {c : Prop} [Decidable c] {one two : LFMemoryPool Tid} (yes : c → Over s one) (no : ¬c → Over other two) :
    Over (if c then s else other) (if c then one else two) := by
  split
  · rename_i given
    exact yes given
  · rename_i missed
    exact no missed

theorem Over.asked (beside : Over s other) (asked : Asked s) : Asked other := by
  obtain ⟨memory,calls,rfl,alike⟩ := beside
  intro t cls size wanted
  refine asked t cls size ?_
  rw [← unread_same wants (fun call => by cases call <;> rfl) (alike t)]
  exact wanted

theorem Over.few (beside : Over s other) (few : FewPops s label) : FewPops other label := by
  obtain ⟨memory,calls,rfl,alike⟩ := beside
  cases label with
  | step t spurious =>
    rcases unread_parts (alike t) with same | ⟨refill,packed,link,read,since,here,there⟩
    · have mine : (s.onMemory memory calls).calls t = s.calls t := same
      simp only [FewPops,mine]
      exact few
    · have mine : (s.onMemory memory calls).calls t = .popExchange refill packed read since := there
      simp only [FewPops,here] at few
      simp only [FewPops,mine]
      exact few
  | _ => trivial

theorem Over.relisted (beside : Over s other) (label : Label Tid) : other.relisted lists label = s.relisted lists label := by
  obtain ⟨memory,calls,rfl,alike⟩ := beside
  cases label with
  | step t spurious =>
    rcases unread_parts (alike t) with same | ⟨refill,packed,link,read,since,here,there⟩
    · have mine : (s.onMemory memory calls).calls t = s.calls t := same
      simp only [LFMemoryPool.relisted,mine]
      rfl
    · have mine : (s.onMemory memory calls).calls t = .popExchange refill packed read since := there
      simp only [LFMemoryPool.relisted,mine,here]
      rfl
  | _ => rfl

theorem unwritten_parts {label' : Label Tid} (same : unwritten label' = unwritten label) : label' = label ∨
    ∃ p value value' size, label = .overwrite p value size ∧ label' = .overwrite p value' size := by
  cases label with
  | overwrite p value size =>
    cases label' with
    | overwrite _ value' _ =>
      cases same
      exact .inr ⟨p,value,value',size,rfl,rfl⟩
    | _ => cases same
  | _ =>
    cases label' with
    | overwrite => cases same
    | _ => exact .inl same

theorem Over.able (beside : Over s other) (able : s.allowed label = true) : other.allowed label = true := by
  obtain ⟨memory,calls,rfl,alike⟩ := beside
  have idle : ∀ t, PoolCall.isIdle (calls t) = PoolCall.isIdle (s.calls t) :=
    fun t => unread_same PoolCall.isIdle (fun call => by cases call <;> rfl) (alike t)
  have asking : ∀ t, PoolCall.isMalloc (calls t) = PoolCall.isMalloc (s.calls t) :=
    fun t => unread_same PoolCall.isMalloc (fun call => by cases call <;> rfl) (alike t)
  cases label with
  | allocate t size | deallocate t p size =>
    simp only [allowed,onMemory,idle]
    exact able
  | malloc t p =>
    simp only [allowed,onMemory,asking]
    exact able
  | _ => exact able

theorem mem_given (given : BitVec 64) (asked : Nat) (out : p ∈ s.users size) :
    p ∈ Function.update s.users asked (given :: s.users asked) size := by
  by_cases same : size = asked
  · rw [same,Function.update_self]
    exact List.mem_cons_of_mem _ (same ▸ out)
  · rwa [Function.update_of_ne same]

-- The first bytes of a block after a step, if only its user writes to it.
def written (p : BitVec 64) (held : BitVec 64) : Label Tid → BitVec 64
  | .overwrite q value _ => if q = p then value else held
  | _ => held

-- What every step of a thread leaves alone: the blocks that are out, all blocks
-- but the one that push has in hand, and the heads but for an exchange.
structure Frame (s after : LFMemoryPool Tid) (t : Tid) : Prop where
  users : ∀ p size, p ∈ s.users size → p ∈ after.users size
  next : ∀ p, (∀ cls left packed, s.calls t ≠ .pushLink cls left p packed) → after.next p = s.next p
  heads : (∀ call packed link since, s.calls t ≠ .popExchange call packed link since) →
    (∀ cls left node packed, s.calls t ≠ .pushExchange cls left node packed) → after.headPacked = s.headPacked

theorem Frame.same {after : LFMemoryPool Tid} (users : after.users = s.users) (next : after.next = s.next)
    (heads : after.headPacked = s.headPacked) : Frame s after t :=
  ⟨fun _ _ out => users ▸ out,fun p _ => congrFun next p,fun _ _ => heads⟩

variable [DecidableEq Tid]

theorem takeBack_users (otherwise : PoolCall) (out : p ∈ s.users size) : p ∈ (s.takeBack t cls asked otherwise).users size := by
  unfold takeBack
  split
  · exact out
  · exact mem_given _ asked out

theorem takeBack_heads (s : LFMemoryPool Tid) (t : Tid) (cls : Fin 7) (size : Nat) (otherwise : PoolCall) :
    (s.takeBack t cls size otherwise).headPacked = s.headPacked ∧ (s.takeBack t cls size otherwise).next = s.next := by
  unfold takeBack
  split <;> exact ⟨rfl,rfl⟩

theorem step_frame (s : LFMemoryPool Tid) (t : Tid) (spurious : Bool) : Frame s (s.step t spurious) t := by
  cases here : s.calls t with
  | idle | malloc =>
    simp only [LFMemoryPool.step,here]
    exact .same rfl rfl rfl
  | popVerify =>
    simp only [LFMemoryPool.step,here]
    split <;> exact .same rfl rfl rfl
  | popExchange =>
    simp only [LFMemoryPool.step,here]
    split
    · exact ⟨fun _ _ out => out,fun _ _ => rfl,fun pop _ => absurd here (pop _ _ _ _)⟩
    · exact .same rfl rfl rfl
  | take cls size =>
    simp only [LFMemoryPool.step,here]
    obtain ⟨heads,next⟩ := takeBack_heads s t cls size (.malloc cls size)
    exact ⟨fun _ _ out => takeBack_users _ out,fun p _ => congrFun next p,fun _ _ => heads⟩
  | drain cls left =>
    cases left with
    | zero =>
      simp only [LFMemoryPool.step,here]
      exact .same rfl rfl rfl
    | succ left =>
      simp only [LFMemoryPool.step,here]
      split <;> exact .same rfl rfl rfl
  | pushLink cls left node packed =>
    simp only [LFMemoryPool.step,here]
    refine ⟨fun _ _ out => out,fun p apart => Function.update_of_ne (fun same => ?_) _ _,fun _ _ => rfl⟩
    exact apart cls left packed (same ▸ here)
  | pushExchange =>
    simp only [LFMemoryPool.step,here]
    split
    · exact ⟨fun _ _ out => out,fun _ _ => rfl,fun _ push => absurd here (push _ _ _ _)⟩
    · exact .same rfl rfl rfl
  | _ =>
    simp only [LFMemoryPool.step,here]
    exact .same rfl rfl rfl

-- A block stays with its user until it is given back, and only the user writes
-- to it.
theorem Kept.user (old : Kept s lists) (out : p ∈ s.users size) (able : s.allowed label = true)
    (held : ∀ t, label ≠ .deallocate t p size) :
    p ∈ (s.apply label).users size ∧ (s.apply label).next p = written p (s.next p) label := by
  have here : p ∈ s.contents lists (.user size) := out
  cases label with
  | allocate t asked =>
    exact ⟨takeBack_users _ out,congrFun (takeBack_heads s t (sizeClass asked) asked _).2 p⟩
  | deallocate t q asked =>
    refine ⟨?_,rfl⟩
    simp only [allowed,Bool.and_eq_true,decide_eq_true_eq] at able
    change p ∈ Function.update s.users asked ((s.users asked).erase q) size
    by_cases same : size = asked
    · have differ : p ≠ q := fun equal => held t (by rw [equal,same])
      rw [same] at out ⊢
      rw [Function.update_self]
      exact (List.mem_erase_of_ne differ).mpr out
    · rwa [Function.update_of_ne same]
  | malloc t q =>
    simp only [LFMemoryPool.apply,mallocReturns]
    split
    · rename_i cls asked _
      exact ⟨mem_given q asked out,rfl⟩
    · exact ⟨out,rfl⟩
  | overwrite q value asked =>
    refine ⟨out,?_⟩
    change Function.update s.next q value p = if q = p then value else s.next p
    rw [Function.update_apply]
    simp only [eq_comm]
  | step t spurious =>
    have frame := step_frame s t spurious
    exact ⟨frame.users p size out,frame.next p (old.unlinked here fun _ same => by cases same)⟩

-- Whatever the other threads allocate and give back meanwhile, a block holds
-- what its user last wrote to it until it is given back.
theorem holds_what_was_written {labels : List (Label Tid)} {final : LFMemoryPool Tid} (path : (machine Tid).ReachedUnder FewPops s)
    (out : p ∈ s.users size) (few : (machine Tid).Meets FewPops s labels) (held : ∀ t, .deallocate t p size ∉ labels)
    (ran : (machine Tid).run s labels = some final) :
    p ∈ final.users size ∧ final.next p = labels.foldl (written p) (s.next p) := by
  induction labels generalizing s with
  | nil =>
    cases Option.some.inj ran
    exact ⟨out,rfl⟩
  | cons label rest ih =>
    obtain ⟨middle,taken,ran⟩ := Machine.run_cons_parts ran
    obtain ⟨_,lists,old⟩ := kept_preserves.reached path
    obtain ⟨able,rfl⟩ := Machine.guarded_parts.mp taken
    obtain ⟨still,bytes⟩ := old.user out able fun t same => held t (same ▸ List.mem_cons_self)
    rw [List.foldl_cons,← bytes]
    exact ih (path.step few.1 taken) still (few.2 _ taken) (fun t later => held t (List.mem_cons_of_mem _ later)) ran

-- A block of the first of two threads, written to before the second one asks
-- for a block of the same class.
def handedOut : List (Label Bool) := [.allocate true 100,.step true false,.step true false,.malloc true 0x1000]

def writtenTo (value : BitVec 64) : List (Label Bool) :=
  [.overwrite 0x1000 value 100,.allocate false 70,.step false false,.step false false,.malloc false 0x2000]

theorem first_block_holds : ∃ s final, (machine Bool).run (new fun _ => 0) handedOut = some s ∧
    (machine Bool).run s (writtenTo 7) = some final ∧ final.users 70 = [0x2000] ∧ final.next 0x1000 = 7 := by
  have begun : ∃ s, (machine Bool).run (new fun _ => 0) handedOut = some s ∧ 0x1000 ∈ s.users 100 ∧
      ∃ final, (machine Bool).run s (writtenTo 7) = some final ∧ final.users 70 = [0x2000] :=
    ⟨_,rfl,List.mem_cons_self,_,rfl,rfl⟩
  obtain ⟨s,ran,out,final,also,second⟩ := begun
  have met : (machine Bool).Meets FewPops (new fun _ => 0) handedOut := by
    unfold handedOut
    iterate 4
      refine .cons trivial rfl ?_
    trivial
  have few : (machine Bool).Meets FewPops s (writtenTo 7) := by
    cases Option.some.inj ran
    unfold writtenTo
    iterate 5
      refine .cons trivial rfl ?_
    trivial
  have origin : (machine Bool).start (new fun _ => 0) := ⟨_,rfl⟩
  have held : ∀ t, .deallocate t 0x1000 100 ∉ writtenTo 7 := by
    intro t given
    simp [writtenTo] at given
  obtain ⟨_,bytes⟩ := holds_what_was_written ((Machine.ReachedUnder.start origin).along met ran) out few held also
  exact ⟨s,final,ran,also,second,bytes⟩

theorem Kept.step_linked (old : Kept s lists) (spurious : Bool) (few : FewPops s (.step t spurious)) (cls : Fin 7) :
    Linked 0 (s.step t spurious).next (ptr ((s.step t spurious).headPacked cls)) (s.relisted lists (.step t spurious) cls) := by
  cases here : s.calls t with
  | popExchange call packed nextPtr since =>
    simp only [LFMemoryPool.step,relisted,here]
    split
    · rename_i won
      obtain ⟨rfl,_⟩ := won
      simp only [FewPops,here] at few
      obtain ⟨rest,whole,path⟩ := old.link_read here few
      have short := old.linked_short path fun p listed => whole ▸ List.mem_cons_of_mem _ listed
      change Linked 0 s.next (ptr (Function.update s.headPacked call.cls _ cls)) _
      by_cases same : cls = call.cls
      · rw [same,Function.update_self,Function.update_self,popped_eq,ptr_pack short,whole]
        exact path
      · rw [Function.update_of_ne same,Function.update_of_ne same]
        exact old.linked cls
    · exact old.linked cls
  | pushExchange own left node packed =>
    simp only [LFMemoryPool.step,relisted,here]
    split
    · rename_i won
      obtain ⟨rfl,_⟩ := won
      exact (old.pushed here).linked cls
    · exact old.linked cls
  | _ =>
    have frame := step_frame s t spurious
    have heads := frame.heads (fun _ _ _ _ same => (by cases here.symm.trans same)) fun _ _ _ _ same => by
      cases here.symm.trans same
    simp only [relisted,here]
    rw [heads]
    refine (old.linked cls).frame fun p listed => frame.next p ?_
    have there : p ∈ s.contents lists (.list cls) := listed
    exact old.unlinked there fun _ same => by cases same

theorem Kept.apply_linked (old : Kept s lists) (able : s.allowed label = true) (few : FewPops s label) (cls : Fin 7) :
    Linked 0 (s.apply label).next (ptr ((s.apply label).headPacked cls)) (s.relisted lists label cls) := by
  cases label with
  | allocate t size =>
    obtain ⟨heads,links⟩ := takeBack_heads s t (sizeClass size) size (.popLoad ⟨sizeClass size,size,0⟩)
    simp only [LFMemoryPool.apply,allocate,heads,links]
    exact old.linked cls
  | deallocate t p size => exact old.linked cls
  | malloc t p =>
    simp only [LFMemoryPool.apply,mallocReturns]
    split <;> exact old.linked cls
  | overwrite p value size =>
    simp only [allowed,decide_eq_true_eq] at able
    have here : p ∈ s.contents lists (.user size) := able
    exact (old.write here (fun _ same => (by cases same)) (fun _ _ _ _ _ _ same => (by cases same)) value).linked cls
  | step t spurious => exact old.step_linked spurious few cls

theorem Kept.relisted (old : Kept s lists) (asked : Asked s) (able : s.allowed label = true) (few : FewPops s label) :
    Kept (s.apply label) (s.relisted lists label) := by
  obtain ⟨_,later,kept⟩ := kept_apply asked old label able few
  have same : later = s.relisted lists label := funext fun cls => (kept.linked cls).unique (old.apply_linked able few cls)
  rwa [← same]

theorem unread_update {before after : Tid → PoolCall} {call read : PoolCall} (old : ∀ t, unread (after t) = unread (before t))
    (same : unread read = unread call) (u : Tid) :
    unread (Function.update after t read u) = unread (Function.update before t call u) := by
  by_cases here : u = t
  · rw [here,Function.update_self,Function.update_self]
    exact same
  · rw [Function.update_of_ne here,Function.update_of_ne here]
    exact old u

theorem Over.put (old : Over s other) {call read : PoolCall} (same : unread read = unread call) :
    Over (s.put t call) (other.put t read) := by
  obtain ⟨memory,calls,rfl,alike⟩ := old
  exact ⟨memory,_,rfl,unread_update alike same⟩

theorem Over.takeBack (old : Over s other) (cls : Fin 7) (size : Nat) (otherwise : PoolCall) :
    Over (s.takeBack t cls size otherwise) (other.takeBack t cls size otherwise) := by
  obtain ⟨memory,calls,rfl,alike⟩ := old
  simp only [LFMemoryPool.takeBack,onMemory]
  split
  · exact ⟨memory,_,rfl,unread_update alike rfl⟩
  · exact ⟨memory,_,rfl,unread_update alike rfl⟩

-- A thread whose call is the same does the same.
theorem Over.step (old : Over s other) (call : other.calls t = s.calls t) (spurious : Bool) :
    Over (s.step t spurious) (other.step t spurious) := by
  have whole := old
  obtain ⟨memory,calls,rfl,alike⟩ := old
  cases here : s.calls t with
  | idle | malloc =>
    simp only [LFMemoryPool.step,call,here]
    exact whole
  | popVerify refill packed since =>
    simp only [LFMemoryPool.step,call,here]
    exact .ite (fun _ => whole.put rfl) fun _ => whole.put rfl
  | popExchange refill packed link since =>
    simp only [LFMemoryPool.step,call,here]
    exact .ite (fun _ => ⟨memory,_,rfl,unread_update alike rfl⟩) fun _ => whole.put rfl
  | pushExchange cls left node packed =>
    simp only [LFMemoryPool.step,call,here]
    exact .ite (fun _ => ⟨memory,_,rfl,unread_update alike rfl⟩) fun _ => whole.put rfl
  | take cls size =>
    simp only [LFMemoryPool.step,call,here]
    exact whole.takeBack cls size _
  | drain cls left =>
    cases left with
    | zero =>
      simp only [LFMemoryPool.step,call,here]
      exact whole.put rfl
    | succ left =>
      simp only [LFMemoryPool.step,call,here]
      simp only [onMemory]
      split
      · exact whole.put rfl
      · exact ⟨memory,_,rfl,unread_update alike rfl⟩
  | pushLink cls left node packed =>
    simp only [LFMemoryPool.step,call,here]
    exact ⟨_,_,rfl,unread_update alike rfl⟩
  | _ =>
    simp only [LFMemoryPool.step,call,here]
    exact ⟨memory,_,rfl,unread_update alike rfl⟩

theorem Over.agent (old : Kept s lists) (kept : Kept other lists) (beside : Over s other) (t : Tid) (spurious : Bool)
    (few : FewPops s (.step t spurious)) : Over (s.step t spurious) (other.step t spurious) := by
  have whole := beside
  obtain ⟨memory,calls,rfl,alike⟩ := beside
  rcases unread_parts (alike t) with same | ⟨refill,packed,link,read,since,here,there⟩
  · exact whole.step same spurious
  · by_cases won : s.headPacked refill.cls = packed ∧ spurious = false
    · obtain ⟨rfl,_⟩ := won
      simp only [FewPops,here] at few
      have equal := link_same old kept here there few
      exact whole.step (there.trans (equal ▸ here.symm)) spurious
    · have mine : (s.onMemory memory calls).calls t = .popExchange refill packed read since := there
      have missed : ¬((s.onMemory memory calls).headPacked refill.cls = packed ∧ spurious = false) := won
      simp only [LFMemoryPool.step,mine,here]
      rw [if_neg won,if_neg missed]
      exact whole.put rfl

theorem Over.apply (old : Kept s lists) (kept : Kept other lists) (beside : Over s other) (few : FewPops s label) :
    Over (s.apply label) (other.apply label) := by
  cases label with
  | allocate t size => exact beside.takeBack _ _ _
  | deallocate t p size =>
    obtain ⟨memory,calls,rfl,alike⟩ := beside
    exact ⟨memory,_,rfl,unread_update alike rfl⟩
  | malloc t p =>
    have whole := beside
    obtain ⟨memory,calls,rfl,alike⟩ := beside
    rcases unread_parts (alike t) with same | ⟨refill,packed,link,read,since,here,there⟩
    · have mine : (s.onMemory memory calls).calls t = s.calls t := same
      simp only [LFMemoryPool.apply,mallocReturns,mine]
      split
      · exact ⟨memory,_,rfl,unread_update alike rfl⟩
      · exact whole
    · have mine : (s.onMemory memory calls).calls t = .popExchange refill packed read since := there
      simp only [LFMemoryPool.apply,mallocReturns,mine,here]
      exact whole
  | overwrite p value size =>
    obtain ⟨memory,calls,rfl,alike⟩ := beside
    exact ⟨_,_,rfl,alike⟩
  | step t spurious => exact beside.agent old kept t spurious few

theorem Over.next {label' : Label Tid} (old : Kept s lists) (kept : Kept other lists) (asked : Asked s) (beside : Over s other)
    (same : unwritten label' = unwritten label) (able : s.allowed label = true) (few : FewPops s label) :
    other.allowed label' = true ∧ Over (s.apply label) (other.apply label') ∧ Kept (other.apply label') (s.relisted lists label) := by
  rcases unwritten_parts same with rfl | ⟨p,value,value',size,rfl,rfl⟩
  · have also := kept.relisted (beside.asked asked) (beside.able able) (beside.few few)
    rw [beside.relisted] at also
    exact ⟨beside.able able,beside.apply old kept few,also⟩
  · have before : other.allowed (.overwrite p value size) = true := beside.able able
    have also : other.allowed (.overwrite p value' size) = true := before
    refine ⟨also,?_,kept.relisted (beside.asked asked) also trivial⟩
    obtain ⟨memory,calls,rfl,alike⟩ := beside
    exact ⟨_,_,rfl,alike⟩

theorem Over.run {labels others : List (Label Tid)} {final : LFMemoryPool Tid} (old : Kept s lists) (kept : Kept other lists)
    (asked : Asked s) (beside : Over s other) (same : others.map unwritten = labels.map unwritten)
    (few : (machine Tid).Meets FewPops s labels) (ran : (machine Tid).run s labels = some final) :
    ∃ last, (machine Tid).run other others = some last ∧ Over final last := by
  induction labels generalizing s other others lists with
  | nil =>
    cases Option.some.inj ran
    cases List.map_eq_nil_iff.mp same
    exact ⟨other,rfl,beside⟩
  | cons label rest ih =>
    obtain ⟨label',rest',rfl,one,tail⟩ := List.map_eq_cons_iff.mp same
    obtain ⟨middle,taken,ran⟩ := Machine.run_cons_parts ran
    obtain ⟨able,rfl⟩ := Machine.guarded_parts.mp taken
    obtain ⟨also,still,later⟩ := beside.next old kept asked one able few.1
    have step : (machine Tid).next other label' = some (other.apply label') := Machine.guarded_parts.mpr ⟨also,rfl⟩
    rw [Machine.run_cons step]
    exact ih (old.relisted asked able few.1) later (kept_apply asked old label able few.1).1 still tail (few.2 _ taken) ran

-- What users write to their blocks, and what memory held before, changes no
-- head word, no cache and no block that a call returns: a pop may read the first
-- bytes of a block that is already out, but its exchange then fails.
theorem users_writes_unseen {labels others : List (Label Tid)} {final : LFMemoryPool Tid} (origin : (machine Tid).start s)
    (beside : (machine Tid).start other) (same : others.map unwritten = labels.map unwritten)
    (few : (machine Tid).Meets FewPops s labels) (ran : (machine Tid).run s labels = some final) :
    ∃ last, (machine Tid).run other others = some last ∧ Over final last := by
  obtain ⟨memory,rfl⟩ := origin
  obtain ⟨before,rfl⟩ := beside
  have alike : Over (new memory : LFMemoryPool Tid) (new before) := ⟨before,fun _ => .idle,rfl,fun _ => rfl⟩
  exact alike.run (kept_new memory) (kept_new before) (fun _ _ _ absent => by cases absent) same few ran

theorem seven_or_nine : ∃ last, (machine Bool).run (new fun _ => 5) (handedOut ++ writtenTo 9) = some last ∧
    last.users 70 = [0x2000] := by
  have begun : ∃ final, (machine Bool).run (new fun _ => 0) (handedOut ++ writtenTo 7) = some final ∧ final.users 70 = [0x2000] :=
    ⟨_,rfl,rfl⟩
  obtain ⟨final,ran,second⟩ := begun
  have met : (machine Bool).Meets FewPops (new fun _ => 0) (handedOut ++ writtenTo 7) := by
    unfold handedOut writtenTo
    iterate 9
      refine .cons trivial rfl ?_
    trivial
  have origin : ∀ value : BitVec 64, (machine Bool).start (new fun _ => value) := fun _ => ⟨_,rfl⟩
  have same : (handedOut ++ writtenTo 9).map unwritten = (handedOut ++ writtenTo 7).map unwritten := rfl
  obtain ⟨last,also,memory,calls,rfl,_⟩ := users_writes_unseen (origin 0) (origin 5) same met ran
  exact ⟨_,also,second⟩

end NewMuduo.LFMemoryPool
