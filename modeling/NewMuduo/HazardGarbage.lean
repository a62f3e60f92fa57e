import NewMuduo.HazardScans
import Mathlib.Data.Fintype.Fin
import Mathlib.Algebra.Order.BigOperators.Group.Finset
import Mathlib.Data.List.Perm.Subperm

namespace NewMuduo.HazardPointerDomain
variable {Tid Node : Type} {s : HazardPointerDomain Tid Node} {t : Tid} {r : Fin kMaxThreads} {idx : Fin kMaxHazardPointers}
  {p : Node}

-- The records given out so far.
def registered (s : HazardPointerDomain Tid Node) : Nat := min s.nextSlot kMaxThreads

-- What a retireList can hold outside of a scan: too little for one, or what the
-- last one found in the slots.
def atRest (records : Nat) : Nat := max (kRetireThreshold - 1) (kMaxHazardPointers * records)

def scanning : HazardCall Node → Option (Fin kMaxThreads)
  | .scanActive thr _ _ _ | .scanSlot thr _ _ _ _ | .sweep thr _ _ _ => some thr
  | _ => none

-- A scan has at most two pointers from each record it has read, and reads those
-- that have been given out.
def Reads (records : Nat) : HazardCall Node → Prop
  | .scanActive _ i _ hazardous => i ≤ kMaxThreads ∧ hazardous.length ≤ kMaxHazardPointers * min i records
  | .scanSlot _ i j _ hazardous => i.val < records ∧ hazardous.length ≤ kMaxHazardPointers * i.val + j.val
  | .sweep _ _ hazardous _ => hazardous.length ≤ kMaxHazardPointers * min records kMaxThreads
  | _ => True

structure Bounded (s : HazardPointerDomain Tid Node) : Prop where
  active : ∀ r, (s.records r).active = true → r.val < s.nextSlot
  used : ∀ r, (s.records r).retireList ≠ [] → r.val < s.nextSlot
  reads : ∀ t, Reads s.nextSlot (s.threads t).call
  rests : ∀ r, (∃ t, scanning (s.threads t).call = some r) ∨ (s.records r).retireList.length ≤ atRest (registered s)
  lists : ∀ r, (s.records r).retireList.length ≤ atRest (registered s) + 1
  left : ∀ scan ∈ s.scans, scan.left.length ≤ kMaxHazardPointers * registered s

theorem Reads.mono {call : HazardCall Node} (old : Reads n call) (more : n ≤ m) : Reads m call := by
  cases call with
  | scanActive thr i reads hazardous =>
    refine ⟨old.1,Nat.le_trans old.2 ?_⟩
    exact Nat.mul_le_mul_left _ (min_le_min_left i more)
  | scanSlot thr i j reads hazardous => exact ⟨Nat.lt_of_lt_of_le old.1 more,old.2⟩
  | sweep thr reads hazardous pos => exact Nat.le_trans old (Nat.mul_le_mul_left _ (min_le_min_right _ more))
  | _ => trivial

theorem atRest_mono (more : n ≤ m) : atRest n ≤ atRest m :=
  max_le_max_left _ (Nat.mul_le_mul_left _ more)

theorem scanning_carries {call : HazardCall Node} (here : scanning call = some r) : carries call = some r := by
  cases call <;> first | exact here | cases here

-- Nobody else goes through a thread's list.
theorem Registered.unscanned [DecidableEq Tid] (reg : Registered s) (here : carries (s.threads t).call = some r)
    (out : scanning (s.threads t).call = none) (u : Tid) : scanning (s.threads u).call ≠ some r := by
  intro scans
  have same : u = t := reg.owners.alone u t r (reg.own (scanning_carries scans)) (reg.own here)
  rw [same,out] at scans
  cases scans

variable [DecidableEq Tid]

-- A thread goes on and no list changes; one that ends a scan says why its list
-- is short.
theorem Bounded.goes (old : Bounded s) (next : HazardThread Node) (reads : Reads s.nextSlot next.call)
    (still : ∀ r, scanning (s.threads t).call = some r → scanning next.call = some r ∨
      (s.records r).retireList.length ≤ atRest (registered s)) :
    Bounded {s with threads := Function.update s.threads t next} := by
  refine ⟨old.active,old.used,?_,fun r => ?_,old.lists,old.left⟩
  · exact (Function.forall_update_iff s.threads fun _ th => Reads s.nextSlot th.call).mpr ⟨reads,fun u _ => old.reads u⟩
  · rcases old.rests r with ⟨u,scans⟩ | short
    · by_cases same : u = t
      · subst same
        refine (still r scans).imp_left fun scans => ⟨u,?_⟩
        change scanning (Function.update s.threads u next u).call = some r
        rw [Function.update_self]
        exact scans
      · refine .inl ⟨u,?_⟩
        change scanning (Function.update s.threads t next u).call = some r
        rw [Function.update_of_ne same]
        exact scans
    · exact .inr short

omit [DecidableEq Tid] in
-- A record changes and its list does not.
theorem Bounded.setRecord (old : Bounded s) (new : ThreadRecord Node) (same : new.retireList = (s.records r).retireList)
    (given : new.active = true → r.val < s.nextSlot) : Bounded (s.setRecord r new) := by
  have lists : ∀ own, ((s.setRecord r new).records own).retireList = (s.records own).retireList := by
    intro own
    rcases setRecord_parts (r := r) s new own with ⟨rfl,here⟩ | ⟨_,here⟩
    · rw [here,same]
    · rw [here]
  refine ⟨fun own found => ?_,fun own found => ?_,old.reads,fun own => ?_,fun own => ?_,old.left⟩
  · rcases setRecord_parts (r := r) s new own with ⟨rfl,here⟩ | ⟨_,here⟩
    · rw [here] at found
      exact given found
    · rw [here] at found
      exact old.active own found
  · rw [lists own] at found
    exact old.used own found
  · rw [lists own]
    exact old.rests own
  · rw [lists own]
    exact old.lists own

theorem Bounded.register (old : Bounded s) (op : HazardOp Node) (begun : (s.threads t).call = .begins op) :
    Bounded (s.registerThread t op) := by
  have more : registered s ≤ min (s.nextSlot + 1) kMaxThreads := min_le_min_right _ (Nat.le_succ _)
  have grown : ∀ call : HazardCall Node, (∀ n, Reads n call) → Bounded {s.put t call with nextSlot := s.nextSlot + 1} := by
    intro call reads
    have later : Bounded (s.put t call) := old.goes _ (reads _) fun r scans => by rw [begun] at scans; cases scans
    refine ⟨fun r found => Nat.lt_succ_of_lt (later.active r found),fun r found => Nat.lt_succ_of_lt (later.used r found),
      fun u => (later.reads u).mono (Nat.le_succ _),fun r => ?_,fun r => ?_,fun scan listed => ?_⟩
    · exact (later.rests r).imp_right fun short => Nat.le_trans short (atRest_mono more)
    · exact Nat.le_trans (later.lists r) (Nat.succ_le_succ (atRest_mono more))
    · exact Nat.le_trans (later.left scan listed) (Nat.mul_le_mul_left _ more)
  unfold registerThread
  dsimp only
  split
  · exact grown _ fun _ => trivial
  · exact grown _ fun _ => trivial

theorem Bounded.retire [DecidableEq Node] (old : Bounded s) (reg : Registered s) (here : (s.threads t).call = .acts r (.retire p)) :
    Bounded (s.retire t r p) := by
  have carried : carries (s.threads t).call = some r := by rw [here]; rfl
  have out : scanning (s.threads t).call = none := by rw [here]; rfl
  have known : r.val < s.nextSlot := old.active r (reg.active t r (reg.carried t r carried))
  have short : (s.records r).retireList.length ≤ atRest (registered s) := by
    rcases old.rests r with ⟨u,scans⟩ | short
    · exact absurd scans (reg.unscanned carried out u)
    · exact short
  have size : ((s.records r).retireList ++ [p]).length = (s.records r).retireList.length + 1 := List.length_append
  have parts : ∀ own, own = r ∧ ((s.retire t r p).records own).retireList = (s.records r).retireList ++ [p] ∨
      own ≠ r ∧ ((s.retire t r p).records own).retireList = (s.records own).retireList := by
    intro own
    by_cases same : own = r
    · refine .inl ⟨same,?_⟩
      rw [same]
      exact setRetireList_self s _
    · exact .inr ⟨same,congrArg ThreadRecord.retireList (setRetireList_other s _ same)⟩
  refine ⟨fun own found => ?_,fun own found => ?_,?_,fun own => ?_,fun own => ?_,old.left⟩
  · rcases setRecord_parts (r := r) s {s.records r with retireList := (s.records r).retireList ++ [p]} own with ⟨rfl,_⟩ | ⟨_,now⟩
    · exact known
    · change ((s.setRecord r _).records own).active = true at found
      rw [now] at found
      exact old.active own found
  · rcases parts own with ⟨rfl,_⟩ | ⟨_,now⟩
    · exact known
    · rw [now] at found
      exact old.used own found
  · refine (Function.forall_update_iff s.threads fun _ th => Reads s.nextSlot th.call).mpr ⟨?_,fun u _ => old.reads u⟩
    dsimp only
    split
    · exact ⟨Nat.zero_le _,Nat.zero_le _⟩
    · trivial
  · rcases parts own with ⟨rfl,now⟩ | ⟨apart,now⟩
    · by_cases full : kRetireThreshold ≤ ((s.records own).retireList ++ [p]).length
      · refine .inl ⟨t,?_⟩
        change scanning (Function.update s.threads t _ t).call = some own
        rw [Function.update_self,if_pos full]
        rfl
      · rw [now]
        exact .inr (Nat.le_trans (Nat.le_pred_of_lt (Nat.lt_of_not_le full)) (Nat.le_max_left _ _))
    · rw [now]
      refine (old.rests own).imp_left fun given => ?_
      obtain ⟨u,scans⟩ := given
      refine ⟨u,?_⟩
      change scanning (Function.update s.threads t _ u).call = some own
      have other : u ≠ t := by
        rintro rfl
        rw [out] at scans
        cases scans
      rw [Function.update_of_ne other]
      exact scans
  · rcases parts own with ⟨rfl,now⟩ | ⟨_,now⟩
    · rw [now,size]
      exact Nat.succ_le_succ short
    · rw [now]
      exact old.lists own

-- The kept nodes are all hazardous, and no two of them are the same.
theorem Bounded.sweep [DecidableEq Node] {reads : List (Option Node)} (old : Bounded s) (listed : Listed s) (shielded : Shielded s)
    (here : (s.threads t).call = .sweep r reads hazardous pos) : Bounded (s.sweep t r reads hazardous pos) := by
  have known := shielded.swept t
  rw [here] at known
  have few := old.reads t
  rw [here] at few
  unfold HazardPointerDomain.sweep
  split
  · rename_i ended
    have whole : (s.records r).retireList.take pos = (s.records r).retireList :=
      List.take_of_length_le (List.getElem?_eq_none_iff.mp ended)
    have seen := known.2
    rw [whole] at seen
    have short : (s.records r).retireList.length ≤ kMaxHazardPointers * registered s :=
      Nat.le_trans ((listed.lists.once r).subperm seen).length_le few
    have later : Bounded (s.put t .idle) := by
      refine old.goes _ trivial fun own scans => .inr ?_
      rw [here] at scans
      cases scans
      exact Nat.le_trans short (Nat.le_max_right _ _)
    refine ⟨later.active,later.used,later.reads,later.rests,later.lists,fun scan found => ?_⟩
    rcases List.mem_append.mp found with earlier | last
    · exact old.left scan earlier
    · rw [List.mem_singleton.mp last]
      exact short
  · rename_i p found
    split
    · refine old.goes _ few fun own scans => .inl ?_
      rw [here] at scans
      exact scans
    · have shrunk : ∀ own, ((s.setRetireList r ((s.records r).retireList.eraseIdx pos)).records own).retireList.length ≤
          (s.records own).retireList.length := by
        intro own
        by_cases same : own = r
        · rw [same,setRetireList_self]
          exact (List.eraseIdx_sublist _ _).length_le
        · rw [setRetireList_other s _ same]
      refine ⟨fun own found => ?_,fun own found => ?_,old.reads,fun own => ?_,fun own => ?_,old.left⟩
      · rcases setRecord_parts (r := r) s {s.records r with retireList := (s.records r).retireList.eraseIdx pos} own with
          ⟨rfl,now⟩ | ⟨_,now⟩
        · change ((s.setRecord own _).records own).active = true at found
          rw [now] at found
          exact old.active own found
        · change ((s.setRecord r _).records own).active = true at found
          rw [now] at found
          exact old.active own found
      · refine old.used own fun empty => found ?_
        have none := shrunk own
        rw [empty] at none
        exact List.length_eq_zero_iff.mp (Nat.le_zero.mp none)
      · exact (old.rests own).imp_right fun short => Nat.le_trans (shrunk own) short
      · exact Nat.le_trans (shrunk own) (old.lists own)

theorem Bounded.store [DecidableEq Node] (old : Bounded s) (q : Option Node) (out : scanning (s.threads t).call = none) :
    Bounded ((s.store r idx q).put t .idle) := by
  have stored := old.setRecord (r := r) {s.records r with hazardPointers := Function.update (s.records r).hazardPointers idx q}
    rfl (old.active r)
  have marked : Bounded (s.store r idx q) := ⟨stored.active,stored.used,stored.reads,stored.rests,stored.lists,stored.left⟩
  refine marked.goes _ trivial fun own scans => ?_
  change scanning (s.threads t).call = some own at scans
  rw [out] at scans
  cases scans

-- The next record: inactive ones are passed over, and only records that have
-- been given out are active.
theorem Bounded.scanActive [DecidableEq Node] {reads : List (Option Node)} (old : Bounded s)
    (here : (s.threads t).call = .scanActive r i reads hazardous) : Bounded (s.step t) := by
  have few := old.reads t
  rw [here] at few
  obtain ⟨inside,few⟩ := few
  have scans : scanning (s.threads t).call = some r := by rw [here]; rfl
  have still : ∀ {call : HazardCall Node}, scanning call = some r → ∀ own, scanning (s.threads t).call = some own →
      scanning call = some own ∨ (s.records own).retireList.length ≤ atRest (registered s) :=
    fun same own before => .inl (same.trans (scans.symm.trans before))
  simp only [HazardPointerDomain.step,here]
  split
  · rename_i below
    split
    · rename_i active
      refine old.goes _ ⟨old.active _ active,Nat.le_trans few ?_⟩ (still rfl)
      exact Nat.mul_le_mul_left _ (Nat.min_le_left _ _)
    · refine old.goes _ ⟨below,Nat.le_trans few ?_⟩ (still rfl)
      exact Nat.mul_le_mul_left _ (min_le_min_right _ (Nat.le_succ i))
  · rename_i all
    have whole : i = kMaxThreads := Nat.le_antisymm inside (Nat.le_of_not_lt all)
    rw [whole,Nat.min_comm] at few
    exact old.goes _ few (still rfl)

theorem Bounded.scanSlot [DecidableEq Node] {reads : List (Option Node)} (old : Bounded s)
    (here : (s.threads t).call = .scanSlot r i j reads hazardous) : Bounded (s.step t) := by
  have few := old.reads t
  rw [here] at few
  obtain ⟨given,few⟩ := few
  have scans : scanning (s.threads t).call = some r := by rw [here]; rfl
  have one : ((s.records i).hazardPointers j).toList.length ≤ 1 := by
    cases (s.records i).hazardPointers j <;> simp
  have more : (hazardous ++ ((s.records i).hazardPointers j).toList).length ≤ kMaxHazardPointers * i.val + (j.val + 1) := by
    rw [List.length_append]
    omega
  simp only [HazardPointerDomain.step,here]
  split
  · exact old.goes _ ⟨given,more⟩ fun own before => .inl (scans.symm.trans before)
  · rename_i last
    refine old.goes _ ⟨i.isLt,?_⟩ fun own before => .inl (scans.symm.trans before)
    rw [Nat.min_eq_left given,Nat.mul_succ]
    have slots := j.isLt
    omega

theorem Bounded.step [DecidableEq Node] (old : Bounded s) (kept : Kept s) (t : Tid) : Bounded (s.step t) := by
  cases here : (s.threads t).call with
  | idle | aborted =>
    simp only [HazardPointerDomain.step,here]
    exact old
  | begins op =>
    simp only [HazardPointerDomain.step,here]
    split
    · exact old.register op here
    · exact old.goes _ trivial fun _ scans => by rw [here] at scans; cases scans
  | activate r op =>
    simp only [HazardPointerDomain.step,here]
    have own : record (s.threads t) = some r := by rw [record,here]
    have marked := old.setRecord (r := r) {s.records r with active := true} rfl fun _ => kept.registered.owners.holds own
    refine marked.goes _ trivial fun other scans => ?_
    change scanning (s.threads t).call = some other at scans
    rw [here] at scans
    cases scans
  | acts r op =>
    have out : scanning (s.threads t).call = none := by rw [here]; rfl
    cases op with
    | protect idx p | clear idx =>
      simp only [HazardPointerDomain.step,here]
      exact old.store _ out
    | retire p =>
      simp only [HazardPointerDomain.step,here]
      exact old.retire kept.registered here
  | scanActive r i reads hazardous => exact old.scanActive here
  | scanSlot r i j reads hazardous => exact old.scanSlot here
  | sweep r reads hazardous pos =>
    simp only [HazardPointerDomain.step,here]
    exact old.sweep kept.listed kept.shielded here

theorem Bounded.apply [DecidableEq Node] (old : Bounded s) (kept : Kept s) (label : Label Tid Node) (able : s.allowed label = true) :
    Bounded (s.apply label) := by
  have begins : ∀ t op, (s.threads t).call = .idle → Bounded (s.put t (.begins op)) := fun t op idle =>
    old.goes _ trivial fun _ scans => by rw [idle] at scans; cases scans
  cases label with
  | step t => exact old.step kept t
  | begin t op =>
    cases op with
    | retire p =>
      simp only [allowed,Bool.and_eq_true] at able
      have later := begins t (.retire p) (idle_call able.1)
      exact ⟨later.active,later.used,later.reads,later.rests,later.lists,later.left⟩
    | protect | clear => exact begins t _ (idle_call able)
  | observe t idx =>
    unfold HazardPointerDomain.apply
    dsimp only
    split
    · exact old
    · exact ⟨old.active,old.used,old.reads,old.rests,old.lists,old.left⟩
  | new | link | unlink => exact ⟨old.active,old.used,old.reads,old.rests,old.lists,old.left⟩

omit [DecidableEq Tid] in
theorem bounded_new : Bounded (new : HazardPointerDomain Tid Node) := by
  refine ⟨fun r found => (by cases found),fun r found => absurd rfl found,fun _ => trivial,fun r => .inr (Nat.zero_le _),
    fun r => Nat.zero_le _,fun scan found => (by cases found)⟩

theorem bounded_preserves [DecidableEq Node] : (machine Tid Node).Preserves (fun _ _ => True) fun s => Kept s ∧ Bounded s := by
  refine Machine.guarded_preserves ?_ fun s label old able => ⟨kept_apply old.1 label able,old.2.apply old.1 label able⟩
  intro s origin
  rw [origin]
  exact ⟨kept_new,bounded_new⟩

-- No thread lets more than a threshold's worth, or what the slots can protect,
-- wait for its delete, and so the retired nodes are bounded by the threads.
theorem retired_nodes_bounded [DecidableEq Node] (path : (machine Tid Node).Reached s) :
    (∀ t r, (s.threads t).thr = some r → HazardCall.isIdle (s.threads t).call = true →
      (s.records r).retireList.length ≤ atRest (registered s)) ∧
    (∀ r, (s.records r).retireList.length ≤ atRest (registered s) + 1) ∧
    (∀ nodes : Finset Node, (∀ p ∈ nodes, s.life p = .retired) → nodes.card ≤ registered s * (atRest (registered s) + 1)) ∧
    ∀ scan ∈ s.scans, scan.left.length ≤ kMaxHazardPointers * registered s := by
  obtain ⟨kept,old⟩ := bounded_preserves.reached path
  refine ⟨fun t r thr idle => ?_,old.lists,fun nodes retired => ?_,old.left⟩
  · have here := idle_call idle
    have own : record (s.threads t) = some r := by rw [record,here,thr]
    rcases old.rests r with ⟨u,scans⟩ | short
    · have same : u = t := kept.registered.owners.alone u t r (kept.registered.own (scanning_carries scans)) own
      rw [same,here] at scans
      cases scans
    · exact short
  · have given : (Finset.univ.filter fun r : Fin kMaxThreads => r.val < s.nextSlot).card = registered s := by
      rw [Fin.card_filter_val_lt,Nat.min_comm]
      rfl
    have inside : nodes ⊆ (Finset.univ.filter fun r : Fin kMaxThreads => r.val < s.nextSlot).biUnion
        fun r => (s.records r).retireList.toFinset := by
      intro p here
      obtain ⟨r,listed⟩ := (kept.listed.lists.known_iff p).mp (retired p here)
      refine Finset.mem_biUnion.mpr ⟨r,?_,List.mem_toFinset.mpr listed⟩
      exact Finset.mem_filter.mpr ⟨Finset.mem_univ r,old.used r (List.ne_nil_of_mem listed)⟩
    rw [← given]
    refine (Finset.card_le_card inside).trans (Finset.card_biUnion_le_card_mul _ _ _ fun r _ => ?_)
    exact Nat.le_trans (List.toFinset_card_le _) (given ▸ old.lists r)

theorem guarded_node_stays_retired : ∃ s, (machine Bool Nat).run new (guarding ++ removing) = some s ∧
    (s.records 1).retireList = [7] ∧ (s.records 1).retireList.length ≤ atRest 2 := by
  have ran : ∃ s, (machine Bool Nat).run new (guarding ++ removing) = some s ∧ (s.records 1).retireList = [7] ∧
      (s.threads false).thr = some 1 ∧ HazardCall.isIdle (s.threads false).call = true ∧ registered s = 2 :=
    ⟨_,rfl,rfl,rfl,rfl,rfl⟩
  obtain ⟨s,ran,retired,thr,idle,records⟩ := ran
  have bounded := retired_nodes_bounded (Machine.Reached.run (Machine.Reached.start rfl) ran)
  exact ⟨s,ran,retired,records ▸ bounded.1 false 1 thr idle⟩

end NewMuduo.HazardPointerDomain
