import NewMuduo.HazardPointer
import NewMuduo.Owners
import NewMuduo.Places

namespace NewMuduo.HazardPointerDomain
variable {Tid Node : Type} {s : HazardPointerDomain Tid Node} {t : Tid} {r : Fin kMaxThreads} {idx : Fin kMaxHazardPointers}
  {p : Node}

-- The record that is a thread's, from the fetch_add on.
def record (th : HazardThread Node) : Option (Fin kMaxThreads) :=
  match th.call with
  | .activate slot _ => some slot
  | _ => th.thr

def carries : HazardCall Node → Option (Fin kMaxThreads)
  | .acts thr _ | .scanActive thr _ _ _ | .scanSlot thr _ _ _ _ | .sweep thr _ _ _ => some thr
  | _ => none

def retiring (th : HazardThread Node) : Option Node :=
  match th.call with
  | .begins (.retire p) | .activate _ (.retire p) | .acts _ (.retire p) | .aborted (.retire p) => some p
  | _ => none

structure Registered (s : HazardPointerDomain Tid Node) : Prop where
  owners : Owners record s.threads fun r => r.val < s.nextSlot
  carried : ∀ t r, carries (s.threads t).call = some r → (s.threads t).thr = some r
  active : ∀ t r, (s.threads t).thr = some r → (s.records r).active = true
  slots : ∀ r idx p, (s.records r).hazardPointers idx = some p → (s.records r).active = true

-- A retired node is in one list, once, and no longer in the hands of its retire.
structure Listed (s : HazardPointerDomain Tid Node) : Prop where
  lists : Places (fun r => (s.records r).retireList) fun p => s.life p = .retired
  leaving : Owners retiring s.threads fun p => s.life p = .leaving
  counts : ∀ p, s.retires p = s.deletes p + if s.life p = .retired then 1 else 0

variable [DecidableEq Tid]

-- A thread goes on to another call with the record it has.
theorem Registered.goes {call : HazardCall Node} (old : Registered s) (same : record ⟨(s.threads t).thr,call⟩ = record (s.threads t))
    (carried : ∀ r, carries call = some r → (s.threads t).thr = some r) : Registered (s.put t call) := by
  refine ⟨old.owners.keep same,?_,?_,old.slots⟩
  · exact (Function.forall_update_iff s.threads fun _ th => ∀ r, carries th.call = some r → th.thr = some r).mpr
      ⟨carried,fun u _ => old.carried u⟩
  · exact (Function.forall_update_iff s.threads fun _ th => ∀ r, th.thr = some r → (s.records r).active = true).mpr
      ⟨old.active t,fun u _ => old.active u⟩

omit [DecidableEq Tid] in
-- Records change and no active one becomes inactive.
theorem Registered.keeps {after : HazardPointerDomain Tid Node} (old : Registered s) (threads : after.threads = s.threads)
    (nextSlot : after.nextSlot = s.nextSlot) (active : ∀ r, (s.records r).active = true → (after.records r).active = true)
    (slots : ∀ r idx p, (after.records r).hazardPointers idx = some p → (after.records r).active = true) : Registered after := by
  refine ⟨?_,?_,?_,slots⟩
  · rw [threads,nextSlot]
    exact old.owners
  · rw [threads]
    exact old.carried
  · rw [threads]
    exact fun u r found => active r (old.active u r found)

omit [DecidableEq Tid] in
theorem setRecord_parts (s : HazardPointerDomain Tid Node) (new : ThreadRecord Node) (other : Fin kMaxThreads) :
    (other = r ∧ (s.setRecord r new).records other = new) ∨ (other ≠ r ∧ (s.setRecord r new).records other = s.records other) := by
  by_cases same : other = r
  · refine .inl ⟨same,?_⟩
    rw [same]
    exact Function.update_self _ _ _
  · exact .inr ⟨same,Function.update_of_ne same _ _⟩

omit [DecidableEq Tid] in
theorem Registered.setRecord (old : Registered s) (new : ThreadRecord Node) (active : (s.records r).active = true → new.active = true)
    (slots : ∀ idx p, new.hazardPointers idx = some p → new.active = true) : Registered (s.setRecord r new) := by
  refine old.keeps rfl rfl (fun other found => ?_) fun other idx p found => ?_
  · rcases setRecord_parts (r := r) s new other with ⟨rfl,here⟩ | ⟨_,here⟩
    · rw [here]
      exact active found
    · rw [here]
      exact found
  · rcases setRecord_parts (r := r) s new other with ⟨rfl,here⟩ | ⟨_,here⟩
    · rw [here] at found ⊢
      exact slots idx p found
    · rw [here] at found ⊢
      exact old.slots other idx p found

-- fetch_add gives out a record that nobody has.
theorem Registered.register (old : Registered s) (op : HazardOp Node) (begun : (s.threads t).call = .begins op)
    (unknown : (s.threads t).thr = none) : Registered (s.registerThread t op) := by
  have empty : record (s.threads t) = none := by
    rw [record,begun]
    exact unknown
  unfold registerThread
  dsimp only
  split
  · rename_i inside
    refine ⟨?_,?_,?_,old.slots⟩
    · have taken : record ⟨(s.threads t).thr,.activate ⟨s.nextSlot,inside⟩ op⟩ = some ⟨s.nextSlot,inside⟩ := rfl
      refine old.owners.acquire (Nat.lt_irrefl s.nextSlot) empty taken fun other => ?_
      rw [Fin.ext_iff]
      exact Nat.lt_succ_iff_lt_or_eq
    · exact (Function.forall_update_iff s.threads fun _ th => ∀ r, carries th.call = some r → th.thr = some r).mpr
        ⟨fun _ found => (by cases found),fun u _ => old.carried u⟩
    · exact (Function.forall_update_iff s.threads fun _ th => ∀ r, th.thr = some r → (s.records r).active = true).mpr
        ⟨old.active t,fun u _ => old.active u⟩
  · rename_i outside
    have all : (fun r : Fin kMaxThreads => r.val < s.nextSlot + 1) = fun r => r.val < s.nextSlot := by
      funext r
      have inside := r.isLt
      exact propext ⟨fun _ => by omega,fun _ => by omega⟩
    have later : Registered (s.put t (.aborted op)) := old.goes (unknown.trans empty.symm) fun _ found => (by cases found)
    exact ⟨all ▸ later.owners,later.carried,later.active,later.slots⟩

theorem Registered.activate (old : Registered s) (op : HazardOp Node) (taken : (s.threads t).call = .activate r op) :
    Registered {s.setRecord r {s.records r with active := true} with
      threads := Function.update s.threads t ⟨some r,.acts r op⟩} := by
  have later := old.setRecord (r := r) {s.records r with active := true} (fun _ => rfl) fun _ _ _ => rfl
  have same : record (⟨some r,.acts r op⟩ : HazardThread Node) = record (s.threads t) := by
    rw [record,record,taken]
  refine ⟨later.owners.keep same,?_,?_,later.slots⟩
  · exact (Function.forall_update_iff s.threads fun _ th => ∀ r, carries th.call = some r → th.thr = some r).mpr
      ⟨fun _ found => found,fun u _ => old.carried u⟩
  · refine (Function.forall_update_iff s.threads fun _ th => ∀ other, th.thr = some other →
      ((s.setRecord r {s.records r with active := true}).records other).active = true).mpr ⟨fun other found => ?_,fun u _ => later.active u⟩
    cases found
    rcases setRecord_parts (r := r) s {s.records r with active := true} r with ⟨_,here⟩ | ⟨apart,_⟩
    · rw [here]
    · exact absurd rfl apart

omit [DecidableEq Tid] in
theorem Registered.store (old : Registered s) (thr : (s.threads t).thr = some r) (p : Option Node) : Registered (s.store r idx p) := by
  have later := old.setRecord (r := r) {s.records r with
    hazardPointers := Function.update (s.records r).hazardPointers idx p} (fun found => found) fun _ _ _ => old.active t r thr
  exact ⟨later.owners,later.carried,later.active,later.slots⟩

omit [DecidableEq Tid] in
theorem Registered.setRetireList (old : Registered s) (nodes : List Node) : Registered (s.setRetireList r nodes) :=
  old.setRecord _ (fun found => found) (old.slots r)

theorem Registered.sweep [DecidableEq Node] (old : Registered s) (reads : List (Option Node)) (hazardous : List Node) (pos : Nat)
    (here : (s.threads t).call = .sweep r reads hazardous pos) : Registered (s.sweep t r reads hazardous pos) := by
  have own : record (s.threads t) = (s.threads t).thr := by rw [record,here]
  have thr := old.carried t r (by rw [here]; rfl)
  unfold HazardPointerDomain.sweep
  split
  · have later : Registered (s.put t .idle) := old.goes own.symm fun _ found => (by cases found)
    exact ⟨later.owners,later.carried,later.active,later.slots⟩
  · split
    · exact old.goes own.symm fun other found => (by cases found; exact thr)
    · have later := old.setRetireList (r := r) ((s.records r).retireList.eraseIdx pos)
      exact ⟨later.owners,later.carried,later.active,later.slots⟩

theorem Registered.step [DecidableEq Node] (old : Registered s) (t : Tid) : Registered (s.step t) := by
  cases here : (s.threads t).call with
  | idle | aborted =>
    simp only [HazardPointerDomain.step,here]
    exact old
  | begins op =>
    simp only [HazardPointerDomain.step,here]
    split
    · rename_i unknown
      exact old.register op here unknown
    · rename_i r thr
      have own : record (s.threads t) = (s.threads t).thr := by rw [record,here]
      exact old.goes own.symm fun other found => (by cases found; exact thr)
  | activate r op =>
    simp only [HazardPointerDomain.step,here]
    exact old.activate op here
  | acts r op =>
    have own : record (s.threads t) = (s.threads t).thr := by rw [record,here]
    have thr := old.carried t r (by rw [here]; rfl)
    cases op with
    | protect idx p | clear idx =>
      simp only [HazardPointerDomain.step,here]
      exact (old.store thr _).goes own.symm fun _ found => (by cases found)
    | retire p =>
      simp only [HazardPointerDomain.step,here,retire]
      have stored := old.setRetireList (r := r) ((s.records r).retireList ++ [p])
      split
      · have later : Registered ((s.setRetireList r ((s.records r).retireList ++ [p])).put t (.scanActive r 0 [] [])) :=
          stored.goes own.symm fun other found => (by cases found; exact thr)
        exact ⟨later.owners,later.carried,later.active,later.slots⟩
      · have later : Registered ((s.setRetireList r ((s.records r).retireList ++ [p])).put t .idle) :=
          stored.goes own.symm fun _ found => (by cases found)
        exact ⟨later.owners,later.carried,later.active,later.slots⟩
  | scanActive r i reads hazardous =>
    have own : record (s.threads t) = (s.threads t).thr := by rw [record,here]
    have thr := old.carried t r (by rw [here]; rfl)
    simp only [HazardPointerDomain.step,here]
    split
    · split <;> exact old.goes own.symm fun other found => (by cases found; exact thr)
    · exact old.goes own.symm fun other found => (by cases found; exact thr)
  | scanSlot r i j reads hazardous =>
    have own : record (s.threads t) = (s.threads t).thr := by rw [record,here]
    have thr := old.carried t r (by rw [here]; rfl)
    simp only [HazardPointerDomain.step,here]
    split <;> exact old.goes own.symm fun other found => (by cases found; exact thr)
  | sweep r reads hazardous pos =>
    simp only [HazardPointerDomain.step,here]
    exact old.sweep reads hazardous pos here

-- The lists stay and so do the nodes' lives.
theorem Listed.goes {call : HazardCall Node} (old : Listed s) (same : retiring ⟨(s.threads t).thr,call⟩ = retiring (s.threads t)) :
    Listed (s.put t call) :=
  ⟨old.lists,old.leaving.keep same,old.counts⟩

omit [DecidableEq Tid] in
theorem Listed.setRecord (old : Listed s) (new : ThreadRecord Node) (same : new.retireList = (s.records r).retireList) :
    Listed (s.setRecord r new) := by
  refine ⟨old.lists.same fun other => ?_,old.leaving,old.counts⟩
  rcases setRecord_parts (r := r) s new other with ⟨rfl,here⟩ | ⟨_,here⟩
  · rw [here,same]
  · rw [here]

omit [DecidableEq Tid] in
theorem Listed.store (old : Listed s) (p : Option Node) : Listed (s.store r idx p) := by
  have later := old.setRecord (r := r) {s.records r with hazardPointers := Function.update (s.records r).hazardPointers idx p} rfl
  exact ⟨later.lists,later.leaving,later.counts⟩

omit [DecidableEq Tid] in
theorem setRetireList_self (s : HazardPointerDomain Tid Node) (nodes : List Node) :
    ((s.setRetireList r nodes).records r).retireList = nodes := by
  simp [setRetireList,setRecord]

omit [DecidableEq Tid] in
theorem setRetireList_slots (s : HazardPointerDomain Tid Node) (nodes : List Node) (own : Fin kMaxThreads) :
    ((s.setRetireList r nodes).records own).hazardPointers = (s.records own).hazardPointers := by
  unfold setRetireList
  rcases setRecord_parts (r := r) s {s.records r with retireList := nodes} own with ⟨same,here⟩ | ⟨_,here⟩
  · rw [here,same]
  · rw [here]

omit [DecidableEq Tid] in
theorem setRetireList_other (s : HazardPointerDomain Tid Node) (nodes : List Node) (apart : other ≠ r) :
    (s.setRetireList r nodes).records other = s.records other :=
  Function.update_of_ne apart _ _

section nodes
variable [DecidableEq Node]

omit [DecidableEq Tid] in
theorem life_parts (life : Node → NodeLife) (p : Node) (new : NodeLife) (q : Node) :
    (q = p ∧ Function.update life p new q = new) ∨ (q ≠ p ∧ Function.update life p new q = life q) := by
  by_cases same : q = p
  · refine .inl ⟨same,?_⟩
    rw [same,Function.update_self]
  · exact .inr ⟨same,Function.update_of_ne same _ _⟩

-- A client's node changes between lives that no list knows of.
omit [DecidableEq Tid] in
theorem Listed.setLife (old : Listed s) {new : NodeLife} (unlisted : s.life p ≠ .retired) (unleft : s.life p ≠ .leaving)
    (out : new ≠ .retired) (stays : new ≠ .leaving) : Listed (s.setLife p new) := by
  have same : ∀ life : NodeLife, s.life p ≠ life → new ≠ life →
      (fun q => Function.update s.life p new q = life) = fun q => s.life q = life := by
    intro life before after
    funext q
    rcases life_parts s.life p new q with ⟨rfl,here⟩ | ⟨_,here⟩
    · rw [here]
      exact propext ⟨fun found => absurd found after,fun found => absurd found before⟩
    · rw [here]
  refine ⟨?_,?_,fun q => ?_⟩
  · change Places _ fun q => Function.update s.life p new q = .retired
    rw [same .retired unlisted out]
    exact old.lists
  · change Owners retiring s.threads fun q => Function.update s.life p new q = .leaving
    rw [same .leaving unleft stays]
    exact old.leaving
  · have equal := congrFun (same .retired unlisted out) q
    change s.retires q = s.deletes q + if Function.update s.life p new q = .retired then 1 else 0
    rw [old.counts q]
    simp only [equal]

-- retire is called on a node that is not reachable.
theorem Listed.begins (old : Listed s) (idle : (s.threads t).call = .idle) (allocated : s.life p = .allocated) :
    Listed ((s.setLife p .leaving).put t (.begins (.retire p))) := by
  have unlisted : (fun q => Function.update s.life p NodeLife.leaving q = .retired) = fun q => s.life q = .retired := by
    funext q
    rcases life_parts s.life p .leaving q with ⟨rfl,here⟩ | ⟨_,here⟩
    · rw [here,allocated]
      exact propext ⟨fun found => (by cases found),fun found => (by cases found)⟩
    · rw [here]
  refine ⟨?_,?_,fun q => ?_⟩
  · change Places _ fun q => Function.update s.life p .leaving q = .retired
    rw [unlisted]
    exact old.lists
  · have free : ¬s.life p = .leaving := by
      rw [allocated]
      intro found
      cases found
    have empty : retiring (s.threads t) = none := by rw [retiring,idle]
    refine old.leaving.acquire free empty rfl fun q => ?_
    change Function.update s.life p .leaving q = .leaving ↔ _
    rcases life_parts s.life p .leaving q with ⟨rfl,here⟩ | ⟨apart,here⟩
    · rw [here]
      exact ⟨fun _ => .inr rfl,fun _ => rfl⟩
    · rw [here]
      exact ⟨.inl,fun given => given.resolve_right apart⟩
  · have equal := congrFun unlisted q
    change s.retires q = s.deletes q + if Function.update s.life p .leaving q = .retired then 1 else 0
    rw [old.counts q]
    simp only [equal]

theorem Listed.retire (old : Listed s) (here : (s.threads t).call = .acts r (.retire p)) : Listed (s.retire t r p) := by
  have own : retiring (s.threads t) = some p := by rw [retiring,here]
  have leaving : s.life p = .leaving := old.leaving.holds own
  have unlisted : ¬s.life p = .retired := by
    rw [leaving]
    intro found
    cases found
  refine ⟨?_,?_,fun q => ?_⟩
  · refine old.lists.enter unlisted r ?_ (fun other apart => ?_) fun q => ?_
    · change ((s.setRetireList r ((s.records r).retireList ++ [p])).records r).retireList.Perm _
      rw [setRetireList_self]
      exact List.perm_append_singleton p _
    · change ((s.setRetireList r ((s.records r).retireList ++ [p])).records other).retireList = _
      rw [setRetireList_other s _ apart]
    · change Function.update s.life p .retired q = .retired ↔ _
      rcases life_parts s.life p .retired q with ⟨rfl,now⟩ | ⟨apart,now⟩
      · rw [now]
        exact ⟨fun _ => .inr rfl,fun _ => rfl⟩
      · rw [now]
        exact ⟨.inl,fun given => given.resolve_right apart⟩
  · refine old.leaving.release own ?_ fun q => ?_
    · rw [retiring]
      split <;> first | rfl | (rename_i found; split at found <;> cases found)
    · change Function.update s.life p .retired q = .leaving ↔ _
      rcases life_parts s.life p .retired q with ⟨rfl,now⟩ | ⟨apart,now⟩
      · rw [now]
        exact ⟨fun found => (by cases found),fun given => absurd rfl given.2⟩
      · rw [now]
        exact ⟨fun found => ⟨found,apart⟩,fun given => given.1⟩
  · change Function.update s.retires p (s.retires p + 1) q = s.deletes q + if Function.update s.life p .retired q = .retired then 1 else 0
    have before := old.counts q
    rcases life_parts s.life p .retired q with ⟨rfl,now⟩ | ⟨apart,now⟩
    · rw [if_neg unlisted] at before
      rw [Function.update_self,now,if_pos rfl,before]
    · rw [Function.update_of_ne apart,now]
      exact before

omit [DecidableEq Tid] [DecidableEq Node] in
theorem eraseIdx_perm {nodes : List Node} {pos : Nat} (found : nodes[pos]? = some p) : nodes.Perm (p :: nodes.eraseIdx pos) := by
  obtain ⟨inside,rfl⟩ := List.getElem?_eq_some_iff.mp found
  exact (List.getElem_cons_eraseIdx_perm inside).symm

omit [DecidableEq Tid] in
-- A delete takes the node out of the only list it was in.
theorem Listed.delete (old : Listed s) (found : (s.records r).retireList[pos]? = some p) :
    Listed {s.setRetireList r ((s.records r).retireList.eraseIdx pos) with
      life := Function.update s.life p .free
      deletes := Function.update s.deletes p (s.deletes p + 1)} := by
  have here : p ∈ (s.records r).retireList := List.mem_of_getElem? found
  have retired : s.life p = .retired := (old.lists.known_iff p).mpr ⟨r,here⟩
  refine ⟨?_,?_,fun q => ?_⟩
  · refine old.lists.leave r p ?_ (fun other apart => ?_) fun q => ?_
    · change (s.records r).retireList.Perm (p :: ((s.setRetireList r _).records r).retireList)
      rw [setRetireList_self]
      exact eraseIdx_perm found
    · change ((s.setRetireList r _).records other).retireList = _
      rw [setRetireList_other s _ apart]
    · change Function.update s.life p .free q = .retired ↔ _
      rcases life_parts s.life p .free q with ⟨rfl,now⟩ | ⟨apart,now⟩
      · rw [now]
        exact ⟨fun given => (by cases given),fun given => absurd rfl given.2⟩
      · rw [now]
        exact ⟨fun given => ⟨given,apart⟩,fun given => given.1⟩
  · have same : (fun q => Function.update s.life p NodeLife.free q = .leaving) = fun q => s.life q = .leaving := by
      funext q
      rcases life_parts s.life p .free q with ⟨rfl,now⟩ | ⟨_,now⟩
      · rw [now,retired]
        exact propext ⟨fun given => (by cases given),fun given => (by cases given)⟩
      · rw [now]
    change Owners retiring s.threads fun q => Function.update s.life p .free q = .leaving
    rw [same]
    exact old.leaving
  · change s.retires q = Function.update s.deletes p (s.deletes p + 1) q + if Function.update s.life p .free q = .retired then 1 else 0
    have before := old.counts q
    rcases life_parts s.life p .free q with ⟨rfl,now⟩ | ⟨apart,now⟩
    · rw [if_pos retired] at before
      rw [Function.update_self,now,if_neg fun given => by cases given]
      exact before
    · rw [Function.update_of_ne apart,now]
      exact before

theorem Listed.sweep (old : Listed s) (reads : List (Option Node)) (hazardous : List Node) (pos : Nat)
    (here : (s.threads t).call = .sweep r reads hazardous pos) : Listed (s.sweep t r reads hazardous pos) := by
  have none : retiring (s.threads t) = none := by rw [retiring,here]
  unfold HazardPointerDomain.sweep
  split
  · have later : Listed (s.put t .idle) := old.goes none.symm
    exact ⟨later.lists,later.leaving,later.counts⟩
  · rename_i found
    split
    · exact old.goes none.symm
    · exact old.delete found

theorem Listed.step (old : Listed s) (t : Tid) : Listed (s.step t) := by
  cases here : (s.threads t).call with
  | idle | aborted =>
    simp only [HazardPointerDomain.step,here]
    exact old
  | begins op =>
    simp only [HazardPointerDomain.step,here]
    split
    · unfold registerThread
      dsimp only
      split
      · rename_i inside
        have later : Listed (s.put t (.activate ⟨s.nextSlot,inside⟩ op)) := old.goes (by rw [retiring,retiring,here]; cases op <;> rfl)
        exact ⟨later.lists,later.leaving,later.counts⟩
      · have later : Listed (s.put t (.aborted op)) := old.goes (by rw [retiring,retiring,here]; cases op <;> rfl)
        exact ⟨later.lists,later.leaving,later.counts⟩
    · refine old.goes ?_
      rw [retiring,retiring,here]
      cases op <;> rfl
  | activate r op =>
    simp only [HazardPointerDomain.step,here]
    have later := old.setRecord (r := r) {s.records r with active := true} rfl
    refine ⟨later.lists,later.leaving.keep ?_,later.counts⟩
    change retiring ⟨some r,.acts r op⟩ = retiring (s.threads t)
    rw [retiring,retiring,here]
    cases op <;> rfl
  | acts r op =>
    cases op with
    | protect idx p | clear idx =>
      simp only [HazardPointerDomain.step,here]
      have none : retiring (s.threads t) = none := by rw [retiring,here]
      exact (old.store _).goes none.symm
    | retire p =>
      simp only [HazardPointerDomain.step,here]
      exact old.retire here
  | scanActive r i reads hazardous =>
    have none : retiring (s.threads t) = none := by rw [retiring,here]
    simp only [HazardPointerDomain.step,here]
    split
    · split <;> exact old.goes none.symm
    · exact old.goes none.symm
  | scanSlot r i j reads hazardous =>
    have none : retiring (s.threads t) = none := by rw [retiring,here]
    simp only [HazardPointerDomain.step,here]
    split <;> exact old.goes none.symm
  | sweep r reads hazardous pos =>
    simp only [HazardPointerDomain.step,here]
    exact old.sweep reads hazardous pos here

end nodes
end NewMuduo.HazardPointerDomain
