import NewMuduo.HazardRecords
import Mathlib.Data.List.ReduceOption

namespace NewMuduo.HazardPointerDomain
variable {Tid Node : Type} {s : HazardPointerDomain Tid Node} {t : Tid} {r : Fin kMaxThreads} {idx : Fin kMaxHazardPointers}
  {p : Node}

-- The scan has still to read the slot, or has the node from it.
def Covered (r : Fin kMaxThreads) (idx : Fin kMaxHazardPointers) (p : Node) : HazardCall Node → Prop
  | .scanActive _ i _ hazardous => i ≤ r.val ∨ p ∈ hazardous
  | .scanSlot _ i j _ hazardous => i.val < r.val ∨ (i = r ∧ j.val ≤ idx.val) ∨ p ∈ hazardous
  | .sweep _ _ hazardous _ => p ∈ hazardous
  | _ => True

-- hazardous is what the scan read; the list up to pos is in it.
def Swept (s : HazardPointerDomain Tid Node) : HazardCall Node → Prop
  | .scanActive _ _ reads hazardous | .scanSlot _ _ _ reads hazardous => hazardous = reads.reduceOption
  | .sweep thr reads hazardous pos => hazardous = reads.reduceOption ∧ ∀ p ∈ (s.records thr).retireList.take pos, p ∈ hazardous
  | _ => True

structure Shielded (s : HazardPointerDomain Tid Node) : Prop where
  alive : ∀ r idx p, s.validated r idx = true → (s.records r).hazardPointers idx = some p → s.life p ≠ .free
  covered : ∀ r idx p, s.validated r idx = true → (s.records r).hazardPointers idx = some p →
    ∀ t own, carries (s.threads t).call = some own → p ∈ (s.records own).retireList → Covered r idx p (s.threads t).call
  swept : ∀ t, Swept s (s.threads t).call
  scans : ∀ scan ∈ s.scans, ∀ p ∈ scan.left, some p ∈ scan.reads

variable [DecidableEq Tid] [DecidableEq Node]

omit [DecidableEq Tid] [DecidableEq Node] in
theorem Swept.keeps {after : HazardPointerDomain Tid Node} {call : HazardCall Node} (old : Swept s call)
    (lists : ∀ r, (after.records r).retireList = (s.records r).retireList) : Swept after call := by
  cases call with
  | sweep thr reads hazardous pos =>
    refine ⟨old.1,?_⟩
    rw [lists]
    exact old.2
  | _ => exact old

-- Nothing that a running scan knows is spoilt while the slots, the validated
-- marks and the lists stay, or the marks and the lists shrink.
omit [DecidableEq Tid] [DecidableEq Node] in
theorem Shielded.keeps {after : HazardPointerDomain Tid Node} (old : Shielded s) (threads : after.threads = s.threads)
    (scans : after.scans = s.scans) (lists : ∀ r, (after.records r).retireList = (s.records r).retireList)
    (marked : ∀ r idx p, after.validated r idx = true → (after.records r).hazardPointers idx = some p →
      s.validated r idx = true ∧ (s.records r).hazardPointers idx = some p)
    (life : ∀ p, s.life p ≠ .free → after.life p ≠ .free) : Shielded after := by
  refine ⟨fun r idx p mark held => ?_,fun r idx p mark held t own carried listed => ?_,fun t => ?_,?_⟩
  · obtain ⟨before,slot⟩ := marked r idx p mark held
    exact life p (old.alive r idx p before slot)
  · obtain ⟨before,slot⟩ := marked r idx p mark held
    rw [threads] at carried ⊢
    rw [lists] at listed
    exact old.covered r idx p before slot t own carried listed
  · rw [threads]
    exact (old.swept t).keeps lists
  · rw [scans]
    exact old.scans

omit [DecidableEq Node] in
theorem Shielded.goes {next : HazardThread Node} (old : Shielded s)
    (covered : ∀ r idx p own, s.validated r idx = true → (s.records r).hazardPointers idx = some p → carries next.call = some own →
      p ∈ (s.records own).retireList → Covered r idx p next.call)
    (swept : Swept s next.call) : Shielded {s with threads := Function.update s.threads t next} := by
  refine ⟨old.alive,fun r idx p mark held => ?_,?_,old.scans⟩
  · exact (Function.forall_update_iff s.threads fun _ th => ∀ own, carries th.call = some own → p ∈ (s.records own).retireList →
      Covered r idx p th.call).mpr ⟨fun own => covered r idx p own mark held,fun u _ => old.covered r idx p mark held u⟩
  · have all : ∀ u, Swept s (Function.update s.threads t next u).call :=
      (Function.forall_update_iff s.threads fun _ th => Swept s th.call).mpr ⟨swept,fun u _ => old.swept u⟩
    exact fun u => (all u).keeps fun _ => rfl

omit [DecidableEq Node] in
-- A thread that is not in a scan.
theorem Shielded.rests {next : HazardThread Node} (old : Shielded s) (none : ∀ own, carries next.call = some own → ∀ r idx p, Covered r idx p next.call)
    (swept : Swept s next.call) : Shielded {s with threads := Function.update s.threads t next} :=
  old.goes (fun r idx p own _ _ carried _ => none own carried r idx p) swept

omit [DecidableEq Tid] [DecidableEq Node] in
theorem Registered.own (reg : Registered s) (here : carries (s.threads t).call = some r) : record (s.threads t) = some r := by
  have thr := reg.carried t r here
  cases call : (s.threads t).call with
  | activate slot op =>
    rw [call] at here
    cases here
  | _ =>
    rw [record,call]
    exact thr

omit [DecidableEq Node] in
-- A thread changes its own retireList, which no other scan goes through.
theorem Shielded.rewrites {after : HazardPointerDomain Tid Node} {next : HazardThread Node} (old : Shielded s) (reg : Registered s)
    (here : carries (s.threads t).call = some r) (threads : after.threads = Function.update s.threads t next)
    (others : ∀ own, own ≠ r → after.records own = s.records own)
    (slots : ∀ own, (after.records own).hazardPointers = (s.records own).hazardPointers) (marked : after.validated = s.validated)
    (scans : after.scans = s.scans)
    (life : ∀ own idx p, s.validated own idx = true → (s.records own).hazardPointers idx = some p → after.life p ≠ .free)
    (covered : ∀ other idx p own, s.validated other idx = true → (s.records other).hazardPointers idx = some p →
      carries next.call = some own → p ∈ (after.records own).retireList → Covered other idx p next.call)
    (swept : Swept after next.call) : Shielded after := by
  have apart : ∀ u, u ≠ t → ∀ own, carries (s.threads u).call = some own → own ≠ r := by
    intro u differ own carried same
    exact differ (reg.owners.alone u t r (same ▸ reg.own carried) (reg.own here))
  refine ⟨fun other idx p mark held => ?_,fun other idx p mark held => ?_,?_,scans ▸ old.scans⟩
  · rw [marked] at mark
    rw [slots] at held
    exact life other idx p mark held
  · rw [marked] at mark
    rw [slots] at held
    rw [threads]
    refine (Function.forall_update_iff s.threads fun _ th => ∀ own, carries th.call = some own → p ∈ (after.records own).retireList →
      Covered other idx p th.call).mpr ⟨fun own => covered other idx p own mark held,fun u differ own carried listed => ?_⟩
    rw [others own (apart u differ own carried)] at listed
    exact old.covered other idx p mark held u own carried listed
  · rw [threads]
    refine (Function.forall_update_iff s.threads fun _ th => Swept after th.call).mpr ⟨swept,fun u differ => ?_⟩
    have before := old.swept u
    cases call : (s.threads u).call with
    | sweep own reads hazardous pos =>
      rw [call] at before
      refine ⟨before.1,?_⟩
      rw [others own (apart u differ own (by rw [call]; rfl))]
      exact before.2
    | _ =>
      rw [call] at before
      exact before

omit [DecidableEq Tid] [DecidableEq Node] in
theorem Shielded.store (old : Shielded s) (p : Option Node) : Shielded (s.store r idx p) := by
  have same : ∀ other, ((s.store r idx p).records other).retireList = (s.records other).retireList := by
    intro other
    change ((s.setRecord r {s.records r with
      hazardPointers := Function.update (s.records r).hazardPointers idx p}).records other).retireList = _
    rcases setRecord_parts (r := r) s {s.records r with
      hazardPointers := Function.update (s.records r).hazardPointers idx p} other with ⟨same,here⟩ | ⟨_,here⟩
    · rw [here,same]
    · rw [here]
  refine old.keeps rfl rfl same (fun other i q mark held => ?_) fun _ real => real
  by_cases slot : other = r
  · subst slot
    by_cases cell : i = idx
    · subst cell
      simp [HazardPointerDomain.store] at mark
    · simp only [HazardPointerDomain.store,HazardPointerDomain.setRecord,Function.update_self,Function.update_of_ne cell] at mark held
      exact ⟨mark,held⟩
  · simp only [HazardPointerDomain.store,HazardPointerDomain.setRecord,Function.update_of_ne slot] at mark held
    exact ⟨mark,held⟩

-- The next slot of the table: either the scan reads it or its owner has not
-- registered and guards nothing.
theorem Shielded.scanActive (old : Shielded s) (reg : Registered s)
    (here : (s.threads t).call = .scanActive r i reads hazardous) : Shielded (s.step t) := by
  have known := old.swept t
  rw [here] at known
  have before : ∀ other idx p own, s.validated other idx = true → (s.records other).hazardPointers idx = some p →
      some r = some own → p ∈ (s.records own).retireList → i ≤ other.val ∨ p ∈ hazardous := by
    intro other idx p own mark held carried listed
    have covered := old.covered other idx p mark held t own (by rw [here]; exact carried) listed
    rw [here] at covered
    exact covered
  simp only [HazardPointerDomain.step,here]
  split
  · rename_i inside
    split
    · refine old.goes (fun other idx p own mark held carried listed => ?_) known
      rcases before other idx p own mark held carried listed with unread | seen
      · by_cases same : i = other.val
        · exact .inr (.inl ⟨Fin.ext same,Nat.zero_le _⟩)
        · exact .inl (Nat.lt_of_le_of_ne unread same)
      · exact .inr (.inr seen)
    · rename_i inactive
      refine old.goes (fun other idx p own mark held carried listed => ?_) known
      rcases before other idx p own mark held carried listed with unread | seen
      · by_cases same : i = other.val
        · subst same
          exact absurd (reg.slots other idx p held) inactive
        · exact .inl (Nat.lt_of_le_of_ne unread same)
      · exact .inr seen
  · rename_i outside
    refine old.goes (fun other idx p own mark held carried listed => ?_) ⟨known,fun q found => by cases found⟩
    rcases before other idx p own mark held carried listed with unread | seen
    · exact absurd (Nat.lt_of_le_of_lt unread other.isLt) outside
    · exact seen

theorem Shielded.scanSlot (old : Shielded s) (here : (s.threads t).call = .scanSlot r i j reads hazardous) : Shielded (s.step t) := by
  have known := old.swept t
  rw [here] at known
  have grown : hazardous ++ ((s.records i).hazardPointers j).toList = (reads ++ [(s.records i).hazardPointers j]).reduceOption := by
    rw [List.reduceOption_append,List.reduceOption_singleton,← known]
  have before : ∀ other idx p own, s.validated other idx = true → (s.records other).hazardPointers idx = some p →
      some r = some own → p ∈ (s.records own).retireList →
      i.val < other.val ∨ (i = other ∧ j.val < idx.val) ∨ p ∈ hazardous ++ ((s.records i).hazardPointers j).toList := by
    intro other idx p own mark held carried listed
    have covered := old.covered other idx p mark held t own (by rw [here]; exact carried) listed
    rw [here] at covered
    rcases covered with later | ⟨same,unread⟩ | seen
    · exact .inl later
    · by_cases equal : j = idx
      · subst same equal
        refine .inr (.inr (List.mem_append_right _ ?_))
        rw [held]
        exact List.mem_cons_self
      · exact .inr (.inl ⟨same,Nat.lt_of_le_of_ne unread fun equal_ => equal (Fin.ext equal_)⟩)
    · exact .inr (.inr (List.mem_append_left _ seen))
  simp only [HazardPointerDomain.step,here]
  split
  · rename_i inside
    refine old.goes (fun other idx p own mark held carried listed => ?_) grown
    exact before other idx p own mark held carried listed
  · rename_i last
    refine old.goes (fun other idx p own mark held carried listed => ?_) grown
    rcases before other idx p own mark held carried listed with later | ⟨_,unread⟩ | seen
    · exact .inl later
    · have bound := idx.isLt
      omega
    · exact .inr seen

omit [DecidableEq Tid] in
theorem isHazardous_iff (p : Node) (hazardous : List Node) : isHazardous p hazardous = true ↔ p ∈ hazardous := by
  simp [isHazardous]

theorem Shielded.sweep (old : Shielded s) (reg : Registered s) (here : (s.threads t).call = .sweep r reads hazardous pos) :
    Shielded (s.sweep t r reads hazardous pos) := by
  have known := old.swept t
  rw [here] at known
  obtain ⟨read,seen⟩ := known
  have before : ∀ other idx p, s.validated other idx = true → (s.records other).hazardPointers idx = some p →
      p ∈ (s.records r).retireList → p ∈ hazardous := by
    intro other idx p mark held listed
    have covered := old.covered other idx p mark held t r (by rw [here]; rfl) listed
    rw [here] at covered
    exact covered
  unfold HazardPointerDomain.sweep
  split
  · rename_i ended
    have later : Shielded (s.put t .idle) := old.rests (fun _ found => by cases found) trivial
    refine ⟨later.alive,later.covered,later.swept,fun scan listed p left => ?_⟩
    rcases List.mem_append.mp listed with earlier | last
    · exact old.scans scan earlier p left
    · rw [List.mem_singleton.mp last] at left ⊢
      have whole : (s.records r).retireList.take pos = (s.records r).retireList :=
        List.take_of_length_le (List.getElem?_eq_none_iff.mp ended)
      rw [whole,read] at seen
      exact List.reduceOption_mem_iff.mp (seen p left)
  · rename_i p found
    split
    · rename_i hazard
      refine old.goes (fun other idx q own mark held carried listed => ?_) ⟨read,fun q taken => ?_⟩
      · cases carried
        exact before other idx q mark held listed
      · rw [List.take_add_one,found] at taken
        rcases List.mem_append.mp taken with earlier | last
        · exact seen q earlier
        · rw [List.mem_singleton.mp last]
          exact (isHazardous_iff p hazardous).mp hazard
    · rename_i harmless
      have unseen : p ∉ hazardous := fun given => harmless ((isHazardous_iff p hazardous).mpr given)
      have inside : p ∈ (s.records r).retireList := List.mem_of_getElem? found
      have same : s.threads = Function.update s.threads t (s.threads t) := (Function.update_eq_self t s.threads).symm
      refine old.rewrites reg (by rw [here]; rfl) same ?_ (fun own => ?_) rfl rfl ?_ ?_ ?_
      · intro own apart
        exact setRetireList_other s _ apart
      · exact setRetireList_slots s _ own
      · intro other idx q mark held
        rcases life_parts s.life p .free q with ⟨rfl,_⟩ | ⟨_,now⟩
        · exact absurd (before other idx q mark held inside) unseen
        · change Function.update s.life p .free q ≠ .free
          rw [now]
          exact old.alive other idx q mark held
      · intro other idx q own mark held carried listed
        rw [here] at carried ⊢
        cases carried
        change q ∈ ((s.setRetireList r _).records r).retireList at listed
        rw [setRetireList_self] at listed
        exact before other idx q mark held (List.mem_of_mem_eraseIdx listed)
      · rw [here]
        refine ⟨read,fun q taken => seen q ?_⟩
        change q ∈ List.take pos ((s.setRetireList r _).records r).retireList at taken
        rw [setRetireList_self,List.take_eraseIdx_eq_take_of_le _ _ _ (Nat.le_refl pos)] at taken
        exact taken

theorem Shielded.retire (old : Shielded s) (reg : Registered s) (here : (s.threads t).call = .acts r (.retire p)) :
    Shielded (s.retire t r p) := by
  have carried : carries (s.threads t).call = some r := by rw [here]; rfl
  refine old.rewrites reg carried rfl (fun own apart => ?_) (fun own => ?_) rfl rfl ?_ ?_ ?_
  · exact setRetireList_other s _ apart
  · exact setRetireList_slots s _ own
  · intro other idx q mark held
    rcases life_parts s.life p .retired q with ⟨_,now⟩ | ⟨_,now⟩
    · change Function.update s.life p .retired q ≠ .free
      rw [now]
      exact NodeLife.noConfusion
    · change Function.update s.life p .retired q ≠ .free
      rw [now]
      exact old.alive other idx q mark held
  · intro other idx q own mark held _ _
    dsimp only
    split
    · exact .inl (Nat.zero_le _)
    · trivial
  · dsimp only
    split
    · rfl
    · trivial

theorem Shielded.step (old : Shielded s) (reg : Registered s) (t : Tid) : Shielded (s.step t) := by
  cases here : (s.threads t).call with
  | idle | aborted =>
    simp only [HazardPointerDomain.step,here]
    exact old
  | begins op =>
    simp only [HazardPointerDomain.step,here]
    split
    · unfold registerThread
      dsimp only
      split
      · rename_i inside
        have later : Shielded (s.put t (.activate ⟨s.nextSlot,inside⟩ op)) := old.rests (fun _ found => by cases found) trivial
        exact ⟨later.alive,later.covered,later.swept,later.scans⟩
      · have later : Shielded (s.put t (.aborted op)) := old.rests (fun _ found => by cases found) trivial
        exact ⟨later.alive,later.covered,later.swept,later.scans⟩
    · exact old.rests (fun _ _ _ _ _ => trivial) trivial
  | activate r op =>
    simp only [HazardPointerDomain.step,here]
    have marked : Shielded (s.setRecord r {s.records r with active := true}) := by
      refine old.keeps rfl rfl (fun own => ?_) (fun own idx p mark held => ⟨mark,?_⟩) fun _ real => real
      · rcases setRecord_parts (r := r) s {s.records r with active := true} own with ⟨same,now⟩ | ⟨_,now⟩
        · rw [now,same]
        · rw [now]
      · rcases setRecord_parts (r := r) s {s.records r with active := true} own with ⟨same,now⟩ | ⟨_,now⟩
        · rw [now] at held
          rw [same]
          exact held
        · rwa [now] at held
    exact marked.rests (fun _ _ _ _ _ => trivial) trivial
  | acts r op =>
    cases op with
    | protect idx p | clear idx =>
      simp only [HazardPointerDomain.step,here]
      exact (old.store _).rests (fun _ found => by cases found) trivial
    | retire p =>
      simp only [HazardPointerDomain.step,here]
      exact old.retire reg here
  | scanActive r i reads hazardous => exact old.scanActive reg here
  | scanSlot r i j reads hazardous => exact old.scanSlot here
  | sweep r reads hazardous pos =>
    simp only [HazardPointerDomain.step,here]
    exact old.sweep reg here

structure Kept (s : HazardPointerDomain Tid Node) : Prop where
  registered : Registered s
  listed : Listed s
  shielded : Shielded s

omit [DecidableEq Tid] in
theorem Kept.setLife (old : Kept s) {new : NodeLife} (unlisted : s.life p ≠ .retired) (unleft : s.life p ≠ .leaving)
    (out : new ≠ .retired) (stays : new ≠ .leaving) (real : new ≠ .free) : Kept (s.setLife p new) := by
  refine ⟨?_,old.listed.setLife unlisted unleft out stays,?_⟩
  · exact ⟨old.registered.owners,old.registered.carried,old.registered.active,old.registered.slots⟩
  · refine old.shielded.keeps rfl rfl (fun _ => rfl) (fun _ _ _ mark held => ⟨mark,held⟩) fun q alive => ?_
    rcases life_parts s.life p new q with ⟨_,now⟩ | ⟨_,now⟩
    · change Function.update s.life p new q ≠ .free
      rwa [now]
    · change Function.update s.life p new q ≠ .free
      rwa [now]

omit [DecidableEq Tid] [DecidableEq Node] in
-- A node seen reachable is in no list, so no running scan can delete it.
theorem Kept.observe (old : Kept s) (thr : (s.threads t).thr = some r) (slot : (s.records r).hazardPointers idx = some p)
    (reachable : s.life p = .reachable) :
    Kept {s with validated := Function.update s.validated r (Function.update (s.validated r) idx true)} := by
  have unlisted : ∀ own, p ∉ (s.records own).retireList := by
    intro own listed
    have retired : s.life p = .retired := (old.listed.lists.known_iff p).mpr ⟨own,listed⟩
    rw [reachable] at retired
    cases retired
  have parts : ∀ other i q, Function.update s.validated r (Function.update (s.validated r) idx true) other i = true →
      (s.records other).hazardPointers i = some q → (s.validated other i = true) ∨ q = p := by
    intro other i q mark held
    by_cases there : other = r
    · subst there
      by_cases cell : i = idx
      · subst cell
        exact .inr (Option.some.inj (held.symm.trans slot))
      · rw [Function.update_self,Function.update_of_ne cell] at mark
        exact .inl mark
    · rw [Function.update_of_ne there] at mark
      exact .inl mark
  refine ⟨⟨old.registered.owners,old.registered.carried,old.registered.active,old.registered.slots⟩,
    ⟨old.listed.lists,old.listed.leaving,old.listed.counts⟩,?_,?_,?_,old.shielded.scans⟩
  · intro other i q mark held
    rcases parts other i q mark held with before | rfl
    · exact old.shielded.alive other i q before held
    · change s.life q ≠ .free
      rw [reachable]
      exact NodeLife.noConfusion
  · intro other i q mark held u own carried listed
    rcases parts other i q mark held with before | rfl
    · exact old.shielded.covered other i q before held u own carried listed
    · exact absurd listed (unlisted own)
  · exact fun u => (old.shielded.swept u).keeps fun _ => rfl

omit [DecidableEq Tid] [DecidableEq Node] in
theorem idle_call {call : HazardCall Node} (found : HazardCall.isIdle call = true) : call = .idle := by
  cases call with
  | idle => rfl
  | _ => cases found

omit [DecidableEq Tid] [DecidableEq Node] in
theorem seen_parts (seen : (s.guards t idx).any s.isReachable = true) : ∃ r p, (s.threads t).thr = some r ∧
    (s.records r).hazardPointers idx = some p ∧ s.life p = .reachable := by
  cases slot : s.guards t idx with
  | none =>
    rw [slot] at seen
    cases seen
  | some p =>
    rw [slot] at seen
    obtain ⟨r,thr,held⟩ := Option.bind_eq_some_iff.mp slot
    exact ⟨r,p,thr,held,of_decide_eq_true seen⟩

omit [DecidableEq Node] in
theorem Kept.begins (old : Kept s) (idle : (s.threads t).call = .idle) (op : HazardOp Node) (simple : ∀ p, op ≠ .retire p) :
    Kept (s.put t (.begins op)) := by
  have own : record (s.threads t) = (s.threads t).thr := by rw [record,idle]
  have none : retiring (s.threads t) = none := by rw [retiring,idle]
  refine ⟨old.registered.goes own.symm fun _ found => (by cases found),old.listed.goes ?_,
    old.shielded.rests (fun _ found => by cases found) trivial⟩
  rw [none]
  cases op with
  | retire p => exact absurd rfl (simple p)
  | _ => rfl

theorem kept_apply (old : Kept s) (label : Label Tid Node) (able : s.allowed label = true) : Kept (s.apply label) := by
  cases label with
  | begin t op =>
    cases op with
    | retire p =>
      simp only [allowed,Bool.and_eq_true,decide_eq_true_eq] at able
      obtain ⟨idle,allocated⟩ := able
      have here := idle_call idle
      have own : record (s.threads t) = (s.threads t).thr := by rw [record,here]
      have leaves : Registered (s.setLife p .leaving) :=
        ⟨old.registered.owners,old.registered.carried,old.registered.active,old.registered.slots⟩
      have shields : Shielded (s.setLife p .leaving) := by
        refine old.shielded.keeps rfl rfl (fun _ => rfl) (fun _ _ _ mark held => ⟨mark,held⟩) fun q alive => ?_
        rcases life_parts s.life p .leaving q with ⟨_,now⟩ | ⟨_,now⟩
        · change Function.update s.life p .leaving q ≠ .free
          rw [now]
          exact NodeLife.noConfusion
        · change Function.update s.life p .leaving q ≠ .free
          rwa [now]
      exact ⟨leaves.goes own.symm fun _ found => (by cases found),old.listed.begins here allocated,
        shields.rests (fun _ found => by cases found) trivial⟩
    | protect | clear => exact old.begins (idle_call able) _ fun _ same => by cases same
  | observe t idx =>
    simp only [allowed,Bool.and_eq_true] at able
    obtain ⟨_,seen⟩ := able
    obtain ⟨r,p,thr,held,reachable⟩ := seen_parts seen
    simp only [apply,thr]
    exact old.observe thr held reachable
  | new p =>
    have life : s.life p = .free := of_decide_eq_true able
    refine old.setLife ?_ ?_ NodeLife.noConfusion NodeLife.noConfusion NodeLife.noConfusion <;> rw [life] <;> exact NodeLife.noConfusion
  | link p =>
    have life : s.life p = .allocated := of_decide_eq_true able
    refine old.setLife ?_ ?_ NodeLife.noConfusion NodeLife.noConfusion NodeLife.noConfusion <;> rw [life] <;> exact NodeLife.noConfusion
  | unlink p =>
    have life : s.life p = .reachable := of_decide_eq_true able
    refine old.setLife ?_ ?_ NodeLife.noConfusion NodeLife.noConfusion NodeLife.noConfusion <;> rw [life] <;> exact NodeLife.noConfusion
  | step t => exact ⟨old.registered.step t,old.listed.step t,old.shielded.step old.registered t⟩

omit [DecidableEq Tid] [DecidableEq Node] in
theorem kept_new : Kept (new : HazardPointerDomain Tid Node) := by
  refine ⟨⟨.none (fun _ below => absurd below (Nat.not_lt_zero _)) fun _ => rfl,?_,?_,?_⟩,
    ⟨.none (fun _ known => by cases known) fun _ => rfl,.none (fun _ known => by cases known) fun _ => rfl,fun _ => rfl⟩,
    ⟨?_,?_,fun _ => trivial,?_⟩⟩
  · intro t r found
    cases found
  · intro t r found
    cases found
  · intro r idx p found
    cases found
  · intro r idx p mark
    cases mark
  · intro r idx p mark
    cases mark
  · intro scan listed
    cases listed

theorem kept_preserves : (machine Tid Node).Preserves (fun _ _ => True) Kept := by
  refine Machine.guarded_preserves ?_ fun s label old able => kept_apply old label able
  intro s origin
  rw [origin]
  exact kept_new

-- A slot whose node was seen reachable, with the deletes of the node so far.
def Guards (r : Fin kMaxThreads) (idx : Fin kMaxHazardPointers) (p : Node) (count : Nat) (s : HazardPointerDomain Tid Node) : Prop :=
  s.validated r idx = true ∧ (s.records r).hazardPointers idx = some p ∧ s.deletes p = count

omit [DecidableEq Tid] [DecidableEq Node] in
theorem Guards.setRecord {own : Fin kMaxThreads} {new : ThreadRecord Node} {count : Nat} (old : Guards r idx p count s)
    (same : own = r → new.hazardPointers idx = (s.records r).hazardPointers idx) : Guards r idx p count (s.setRecord own new) := by
  obtain ⟨mark,held,deletes⟩ := old
  refine ⟨mark,?_,deletes⟩
  rcases setRecord_parts (r := own) s new r with ⟨equal,here⟩ | ⟨_,here⟩
  · rw [here,same equal.symm]
    exact held
  · rwa [here]

omit [DecidableEq Tid] [DecidableEq Node] in
theorem Guards.store {own : Fin kMaxThreads} {i : Fin kMaxHazardPointers} {count : Nat} (old : Guards r idx p count s)
    (other : ¬(own = r ∧ i = idx)) (q : Option Node) : Guards r idx p count (s.store own i q) := by
  have later : Guards r idx p count (s.setRecord own {s.records own with
      hazardPointers := Function.update (s.records own).hazardPointers i q}) := by
    refine old.setRecord fun same => ?_
    subst same
    exact Function.update_of_ne (fun equal => other ⟨rfl,equal.symm⟩) _ _
  refine ⟨?_,later.2⟩
  change Function.update s.validated own (Function.update (s.validated own) i false) r idx = true
  by_cases same : r = own
  · subst same
    rw [Function.update_self,Function.update_of_ne fun equal => other ⟨rfl,equal.symm⟩]
    exact old.1
  · rw [Function.update_of_ne same]
    exact old.1

-- No step but a store to the slot ends the protection.
theorem Guards.step {count : Nat} (guards : Guards r idx p count s) (old : Kept s) (t : Tid) (safe : ¬Rewrites r idx s (.step t)) :
    Guards r idx p count (s.step t) := by
  cases here : (s.threads t).call with
  | idle | aborted =>
    simp only [HazardPointerDomain.step,here]
    exact guards
  | begins op =>
    simp only [HazardPointerDomain.step,here]
    split
    · exact guards
    · exact guards
  | activate own op =>
    simp only [HazardPointerDomain.step,here]
    exact guards.setRecord fun same => by rw [same]
  | acts own op =>
    cases op with
    | protect i q =>
      simp only [HazardPointerDomain.step,here]
      refine guards.store (fun equal => safe ?_) q
      obtain ⟨rfl,rfl⟩ := equal
      exact congrArg storesTo here
    | clear i =>
      simp only [HazardPointerDomain.step,here]
      refine guards.store (fun equal => safe ?_) none
      obtain ⟨rfl,rfl⟩ := equal
      exact congrArg storesTo here
    | retire q =>
      simp only [HazardPointerDomain.step,here]
      exact guards.setRecord fun same => by rw [same]
  | scanActive own i reads hazardous =>
    simp only [HazardPointerDomain.step,here]
    split
    · split <;> exact guards
    · exact guards
  | scanSlot own i j reads hazardous =>
    simp only [HazardPointerDomain.step,here]
    split <;> exact guards
  | sweep own reads hazardous pos =>
    simp only [HazardPointerDomain.step,here,HazardPointerDomain.sweep]
    split
    · exact guards
    · rename_i q found
      split
      · exact guards
      · rename_i harmless
        have kept : Guards r idx p count (s.setRetireList own ((s.records own).retireList.eraseIdx pos)) := guards.setRecord fun same => by rw [same]
        refine ⟨kept.1,kept.2.1,?_⟩
        have differ : p ≠ q := by
          rintro rfl
          have covered := old.shielded.covered r idx p guards.1 guards.2.1 t own (by rw [here]; rfl) (List.mem_of_getElem? found)
          rw [here] at covered
          exact harmless ((isHazardous_iff p hazardous).mpr covered)
        change Function.update s.deletes q _ p = count
        rw [Function.update_of_ne differ]
        exact guards.2.2

theorem Guards.apply {count : Nat} (guards : Guards r idx p count s) (old : Kept s) (label : Label Tid Node)
    (safe : ¬Rewrites r idx s label) : Guards r idx p count (s.apply label) := by
  cases label with
  | step t => exact guards.step old t safe
  | begin t op => cases op <;> exact guards
  | observe t i =>
    unfold HazardPointerDomain.apply
    dsimp only
    split
    · exact guards
    · rename_i own _
      refine ⟨?_,guards.2⟩
      change Function.update s.validated own (Function.update (s.validated own) i true) r idx = true
      by_cases same : r = own
      · subst same
        rw [Function.update_self]
        by_cases cell : idx = i
        · rw [cell,Function.update_self]
        · rw [Function.update_of_ne cell]
          exact guards.1
      · rw [Function.update_of_ne same]
        exact guards.1
  | new | link | unlink => exact guards

-- A node seen reachable after its store is not deleted before the slot is
-- stored to again; a retired node is in one list or deleted; a scan leaves what it read.
theorem protected_retired_swept (path : (machine Tid Node).Reached s) :
    (∀ t r idx p after labels final, (s.threads t).thr = some r → (s.records r).hazardPointers idx = some p →
      (machine Tid Node).next s (.observe t idx) = some after →
      (machine Tid Node).Meets (fun s label => ¬Rewrites r idx s label) after labels →
      (machine Tid Node).run after labels = some final → final.deletes p = s.deletes p ∧ final.life p ≠ .free) ∧
    (∀ p, ((∃! r, p ∈ (s.records r).retireList) ∧ s.retires p = s.deletes p + 1) ∨
      ((∀ r, p ∉ (s.records r).retireList) ∧ s.retires p = s.deletes p)) ∧
    (∀ r, (s.records r).retireList.Nodup) ∧
    ∀ scan ∈ s.scans, ∀ p ∈ scan.left, some p ∈ scan.reads := by
  have old := kept_preserves.reached path
  refine ⟨?_,fun p => ?_,old.listed.lists.once,old.shielded.scans⟩
  · intro t r idx p after labels final thr held observed met ran
    obtain ⟨able,rfl⟩ := Machine.guarded_parts.mp observed
    have begun : Kept (s.apply (.observe t idx)) ∧ Guards r idx p (s.deletes p) (s.apply (.observe t idx)) := by
      refine ⟨kept_apply old _ able,?_⟩
      simp only [apply,thr]
      refine ⟨?_,held,rfl⟩
      change Function.update s.validated r (Function.update (s.validated r) idx true) r idx = true
      rw [Function.update_self,Function.update_self]
    have carries_on : ∀ before label later, Kept before ∧ Guards r idx p (s.deletes p) before → ¬Rewrites r idx before label →
        (machine Tid Node).next before label = some later → Kept later ∧ Guards r idx p (s.deletes p) later := by
      intro before label later both safe taken
      obtain ⟨able,rfl⟩ := Machine.guarded_parts.mp taken
      exact ⟨kept_apply both.1 label able,both.2.apply both.1 label safe⟩
    obtain ⟨kept,mark,slot,deletes⟩ := Machine.run_meets carries_on begun met ran
    exact ⟨deletes,kept.shielded.alive r idx p mark slot⟩
  · have count := old.listed.counts p
    by_cases retired : s.life p = .retired
    · rw [if_pos retired] at count
      exact .inl ⟨old.listed.lists.exactly_one retired,count⟩
    · rw [if_neg retired] at count
      exact .inr ⟨fun r listed => retired ((old.listed.lists.known_iff p).mpr ⟨r,listed⟩),count⟩

instance (r : Fin kMaxThreads) (idx : Fin kMaxHazardPointers) (s : HazardPointerDomain Bool Nat) :
    ∀ label, Decidable (Rewrites r idx s label)
  | .step _ => inferInstanceAs (Decidable (_ = _))
  | .begin .. | .observe .. | .new _ | .link _ | .unlink _ => .isFalse id

-- One thread guards a node that the other unlinks and retires.
def guarding : List (Label Bool Nat) := [.new 7,.link 7,.begin true (.protect 0 (some 7)),.step true,.step true,.step true]

def removing : List (Label Bool Nat) := [.unlink 7,.begin false (.retire 7),.step false,.step false,.step false]

-- With 63 nodes more the other's list is at the threshold: its scan goes through
-- the 128 records, leaves the node that is guarded and deletes the rest.
def sweeping : List (Label Bool Nat) :=
  removing ++ (List.range' 8 63).flatMap (fun p => [.new p,.begin false (.retire p),.step false,.step false]) ++
    List.replicate 198 (.step false)

theorem guarded_node_swept_past : ∃ s after final, (machine Bool Nat).run new guarding = some s ∧
    (machine Bool Nat).next s (.observe true 0) = some after ∧ (machine Bool Nat).run after sweeping = some final ∧
    (final.deletes 7 = s.deletes 7 ∧ final.life 7 ≠ .free) ∧ (∀ scan ∈ final.scans, ∀ p ∈ scan.left, some p ∈ scan.reads) ∧
    final.scans.map Scan.left = [[7]] ∧ final.deletes 70 = 1 := by
  have ready : ∃ s after, (machine Bool Nat).run new guarding = some s ∧ (machine Bool Nat).next s (.observe true 0) = some after ∧
      (s.threads true).thr = some 0 ∧ (s.records 0).hazardPointers 0 = some 7 ∧
      (machine Bool Nat).Meets (fun s label => ¬Rewrites 0 0 s label) after sweeping ∧
      ((machine Bool Nat).run after sweeping).map (fun s => (s.scans.map Scan.left,s.deletes 70)) = some ([[7]],1) :=
    ⟨_,_,rfl,rfl,rfl,rfl,by decide +kernel,by decide +kernel⟩
  obtain ⟨s,after,before,observed,thr,slot,met,found⟩ := ready
  obtain ⟨final,ran,swept⟩ := Option.map_eq_some_iff.mp found
  simp only [Prod.mk.injEq] at swept
  have path : (machine Bool Nat).Reached s := Machine.Reached.run (Machine.Reached.start rfl) before
  have last : (machine Bool Nat).Reached final := Machine.Reached.run (path.step observed) ran
  obtain ⟨shielded,_⟩ := protected_retired_swept path
  obtain ⟨_,_,_,scanned⟩ := protected_retired_swept last
  exact ⟨s,after,final,before,observed,ran,shielded true 0 0 7 after sweeping final thr slot observed met ran,scanned,swept⟩

end NewMuduo.HazardPointerDomain
