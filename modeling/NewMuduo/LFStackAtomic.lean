import NewMuduo.LFStack
import NewMuduo.Linked
import NewMuduo.Places
import NewMuduo.Tally
import NewMuduo.AtomicObject

namespace NewMuduo

inductive StackOp (T : Type) where
  | push (val : T)
  | pop
  deriving DecidableEq, Repr

-- What a call returns: pop's bool and out.
inductive StackOut (T : Type) where
  | pushed
  | popped (out : Option T)
  deriving DecidableEq, Repr

-- A stack that one thread uses.
def StackOp.perform {T : Type} : StackOp T → List T → List T × StackOut T
  | .push val,vals => (val :: vals,.pushed)
  | .pop,[] => ([],.popped none)
  | .pop,val :: vals => (vals,.popped (some val))

namespace LFStack
open TaggedPointer
variable {T Tid : Type} [DecidableEq Tid] {s after : LFStack T Tid} {t : Tid} {chain others : List (BitVec 64)}
  {call : StackCall}

-- The node of a push in progress.
def pushes : StackCall → List (BitVec 64)
  | .pushLoad node | .pushLink node _ | .pushExchange node _ => [node]
  | _ => []

-- The nodes a call has for itself.
def inHand : StackCall → List (BitVec 64)
  | .popTake node => [node]
  | call => pushes call

-- The node that a pop has loaded and not won yet.
def reads : StackCall → Option (BitVec 64)
  | .popCheck oldHead | .popNext oldHead | .popExchange oldHead _ => some (ptr oldHead)
  | _ => none

-- The pop is counted in holders.
def holds (node : BitVec 64) : StackCall → Bool
  | .popTake taken => taken == node
  | call => reads call == some node

inductive Place (Tid : Type) where
  | stack
  | hand (t : Tid)

omit [DecidableEq Tid] in
def contents (s : LFStack T Tid) (chain : List (BitVec 64)) : Place Tid → List (BitVec 64)
  | .stack => chain
  | .hand t => inHand (s.calls t)

-- What a call relies on: the link it has written or read.
def Sound (next : BitVec 64 → BitVec 64) (chain : List (BitVec 64)) : StackCall → Prop
  | .pushExchange node oldHead => next node = ptr oldHead
  | .popNext oldHead => ptr oldHead ≠ 0
  | .popExchange oldHead link => ptr oldHead ≠ 0 ∧ (ptr oldHead ∈ chain → link = next (ptr oldHead))
  | _ => True

-- The nodes reachable from head_ are chain; every node is there or in the hands
-- of one call, and no push has a node that a pop still reads.
structure Kept (s : LFStack T Tid) (chain : List (BitVec 64)) : Prop where
  linked : Linked 0 s.next (ptr s.head) chain
  places : Places (s.contents chain) fun node => s.live node = true
  real : ∀ node, s.live node = true → node ≠ 0 ∧ Short node
  held : ∀ node, Tally (holds node) s.calls (s.holders node)
  sound : ∀ t, Sound s.next chain (s.calls t)
  apart : ∀ t u node, node ∈ pushes (s.calls t) → reads (s.calls u) ≠ some node

-- What the callers see of a step.
def returning (s : LFStack T Tid) (t : Tid) : Option (StackOut T) :=
  match s.calls t with
  | .pushExchange _ oldHead => if s.head = oldHead then some .pushed else none
  | .popCheck oldHead => if ptr oldHead = 0 then some (.popped none) else none
  | .popTake node => some (.popped (some (s.data node)))
  | _ => none

omit [DecidableEq Tid] in
def sees (s : LFStack T Tid) : Label T Tid → LFStack T Tid → List (AtomicObject.Event (StackOp T) (StackOut T) Tid)
  | .push t val _,_ => [.called t (.push val)]
  | .pop t,_ => [.called t .pop]
  | .step t,_ => (s.returning t).toList.map (.returned t)

-- A pop has taken effect when it has loaded a null head_ or won its exchange.
def view (data : BitVec 64 → T) : StackCall → AtomicObject.Call (StackOp T) (StackOut T)
  | .idle => .idle
  | .pushLoad node | .pushLink node _ | .pushExchange node _ => .called (.push (data node))
  | .popLoad | .popNext _ | .popExchange _ _ => .called .pop
  | .popCheck oldHead => if ptr oldHead = 0 then .done (.popped none) else .called .pop
  | .popTake node => .done (.popped (some (data node)))

structure Shows (s : LFStack T Tid) (a : AtomicObject (List T) (StackOp T) (StackOut T) Tid) (chain : List (BitVec 64)) : Prop where
  kept : Kept s chain
  state : a.state = chain.map s.data
  calls : ∀ t, a.calls t = view s.data (s.calls t)

theorem pushes_inHand : ∀ {call : StackCall} {node : BitVec 64}, node ∈ pushes call → node ∈ inHand call := by
  intro call node member
  cases call <;> first | exact member | cases member

theorem reads_holds {node : BitVec 64} (here : reads call = some node) : holds node call = true := by
  cases call <;> simp_all [reads,holds]

omit [DecidableEq Tid] in
theorem Kept.pushing (old : Kept s chain) {node : BitVec 64} (here : node ∈ pushes (s.calls t)) :
    s.live node = true ∧ node ∉ chain := by
  have hand : node ∈ s.contents chain (.hand t) := pushes_inHand here
  refine ⟨(old.places.known_iff node).mpr ⟨_,hand⟩,fun member => ?_⟩
  cases old.places.alone node .stack (.hand t) member hand

omit [DecidableEq Tid] in
theorem Kept.head (old : Kept s chain) (full : ptr s.head ≠ 0) : ∃ rest, chain = ptr s.head :: rest ∧
    Linked 0 s.next (s.next (ptr s.head)) rest := old.linked.pop full

omit [DecidableEq Tid] in
theorem Kept.known (old : Kept s chain) {node : BitVec 64} (member : node ∈ chain) : s.live node = true :=
  (old.places.known_iff node).mpr ⟨.stack,member⟩

theorem tally_same (old : ∀ node, Tally (holds node) s.calls (s.holders node))
    (same : ∀ node, holds node call = holds node (s.calls t)) (node : BitVec 64) :
    Tally (holds node) (Function.update s.calls t call) (s.holders node) := by
  refine (old node).same fun u => ?_
  by_cases equal : u = t
  · rw [equal,Function.update_self,same]
  · rw [Function.update_of_ne equal]

-- A call goes on by itself: no node moves.
theorem Kept.turn (old : Kept s chain) (calls : after.calls = Function.update s.calls t call) (head : after.head = s.head)
    (live : after.live = s.live) (next : after.next = s.next) (hand : inHand call = inHand (s.calls t))
    (held : ∀ node, Tally (holds node) (Function.update s.calls t call) (after.holders node)) (sound : Sound s.next chain call)
    (reading : ∀ node, reads call = some node → reads (s.calls t) = some node ∨ ∀ u, node ∉ pushes (s.calls u))
    (pushing : pushes call = pushes (s.calls t)) : Kept after chain := by
  have pushing_same : ∀ u, pushes (after.calls u) = pushes (s.calls u) := by
    intro u
    rw [calls]
    by_cases equal : u = t
    · rw [equal,Function.update_self,pushing]
    · rw [Function.update_of_ne equal]
  refine ⟨?_,?_,?_,?_,?_,?_⟩
  · rw [head,next]
    exact old.linked
  · rw [live]
    refine old.places.same fun place => ?_
    cases place with
    | stack => rfl
    | hand u =>
      simp only [contents,calls]
      by_cases equal : u = t
      · rw [equal,Function.update_self,hand]
      · rw [Function.update_of_ne equal]
  · rw [live]
    exact old.real
  · rw [calls]
    exact held
  · intro u
    rw [next,calls]
    by_cases equal : u = t
    · rw [equal,Function.update_self]
      exact sound
    · rw [Function.update_of_ne equal]
      exact old.sound u
  · intro u other node member
    rw [pushing_same] at member
    rw [calls]
    by_cases equal : other = t
    · rw [equal,Function.update_self]
      intro here
      rcases reading node here with before | free
      · exact old.apart u t node member before
      · exact free u member
    · rw [Function.update_of_ne equal]
      exact old.apart u other node member

theorem sound_update {next : BitVec 64 → BitVec 64} (others : ∀ u, u ≠ t → Sound next chain (s.calls u))
    (own : Sound next chain call) (u : Tid) : Sound next chain (Function.update s.calls t call u) := by
  by_cases equal : u = t
  · rw [equal,Function.update_self]
    exact own
  · rw [Function.update_of_ne equal]
    exact others u equal

-- The call gives up or keeps its pushed node and reads nothing new.
theorem apart_update (old : ∀ t u node, node ∈ pushes (s.calls t) → reads (s.calls u) ≠ some node)
    (pushing : ∀ node ∈ pushes call, node ∈ pushes (s.calls t)) (reading : reads call = none) (u other : Tid) (node : BitVec 64)
    (member : node ∈ pushes (Function.update s.calls t call u)) : reads (Function.update s.calls t call other) ≠ some node := by
  have before : node ∈ pushes (s.calls u) := by
    by_cases equal : u = t
    · rw [equal,Function.update_self] at member
      rw [equal]
      exact pushing node member
    · rwa [Function.update_of_ne equal] at member
  by_cases equal : other = t
  · rw [equal,Function.update_self,reading]
    exact fun absent => (by cases absent)
  · rw [Function.update_of_ne equal]
    exact old u other node before

omit [DecidableEq Tid] in
-- Links of nodes outside the chain and outside other hands may change.
theorem Sound.link {next grown : BitVec 64 → BitVec 64} (old : Sound next chain call) (same : ∀ node ∈ chain, grown node = next node)
    (hand : ∀ node ∈ pushes call, grown node = next node) : Sound grown chain call := by
  cases call with
  | pushExchange node oldHead => exact (hand node List.mem_cons_self).trans old
  | popNext oldHead => exact old
  | popExchange oldHead link => exact ⟨old.1,fun member => (old.2 member).trans (same _ member).symm⟩
  | idle | pushLoad | pushLink | popLoad | popCheck | popTake => trivial

omit [DecidableEq Tid] in
theorem Kept.hand_apart (old : Kept s chain) {u : Tid} {node other : BitVec 64} (differ : u ≠ t) (mine : node ∈ pushes (s.calls t))
    (theirs : other ∈ pushes (s.calls u)) : other ≠ node := by
  rintro rfl
  have same := old.places.alone other (.hand t) (.hand u) (pushes_inHand mine) (pushes_inHand theirs)
  cases same
  exact differ rfl

theorem Kept.pushLink (old : Kept s chain) {node oldHead : BitVec 64} (here : s.calls t = .pushLink node oldHead) :
    Kept (s.step t) chain := by
  have mine : node ∈ pushes (s.calls t) := by rw [here]; exact List.mem_cons_self
  obtain ⟨live,outside⟩ := old.pushing mine
  have same : ∀ other ∈ chain, Function.update s.next node (ptr oldHead) other = s.next other := by
    intro other member
    refine Function.update_of_ne ?_ _ _
    rintro rfl
    exact outside member
  simp only [step,here]
  refine ⟨old.linked.frame same,?_,old.real,?_,?_,?_⟩
  · refine old.places.same fun place => ?_
    cases place with
    | stack => rfl
    | hand u =>
      simp only [contents,put]
      by_cases equal : u = t
      · rw [equal,Function.update_self,here]
        rfl
      · rw [Function.update_of_ne equal]
  · exact tally_same old.held fun other => by rw [here]; rfl
  · refine sound_update (fun u differ => ?_) (Function.update_self ..)
    refine (old.sound u).link same fun other theirs => Function.update_of_ne ?_ _ _
    exact old.hand_apart differ mine theirs
  · refine apart_update old.apart (fun other member => ?_) rfl
    rw [here]
    exact member

-- A node goes onto the stack.
theorem Kept.pushed (old : Kept s chain) {node : BitVec 64} (here : s.calls t = .pushExchange node s.head) :
    Kept (s.step t) (node :: chain) := by
  have mine : node ∈ pushes (s.calls t) := by rw [here]; exact List.mem_cons_self
  obtain ⟨live,outside⟩ := old.pushing mine
  obtain ⟨real,short⟩ := old.real node live
  have link : s.next node = ptr s.head := by
    have sound := old.sound t
    rw [here] at sound
    exact sound
  have taken : s.step t = {s.put t .idle with head := pack node (tag s.head)} := by
    simp only [step,here,if_true]
  rw [taken]
  refine ⟨?_,?_,old.real,?_,?_,?_⟩
  · dsimp only [put]
    rw [ptr_pack short]
    refine .cons real ?_
    rw [link]
    exact old.linked
  · have left : (s.contents chain (.hand t)).Perm
        (node :: contents {s.put t .idle with head := pack node (tag s.head)} (node :: chain) (.hand t)) := by
      simp [contents,put,here,inHand,pushes]
    have arrived : (contents {s.put t .idle with head := pack node (tag s.head)} (node :: chain) .stack).Perm
        (node :: s.contents chain .stack) := .refl _
    have differ : Place.hand t ≠ .stack := fun absent => (by cases absent)
    refine old.places.move differ left arrived ?_
    · intro place apart differ
      cases place with
      | stack => exact absurd rfl differ
      | hand u =>
        have other : u ≠ t := fun equal => apart (by rw [equal])
        simp only [contents,put,Function.update_of_ne other]
  · exact tally_same old.held fun other => by rw [here]; rfl
  · refine sound_update (fun u differ => ?_) trivial
    have before := old.sound u
    cases there : s.calls u with
    | popExchange oldHead next =>
      rw [there] at before
      refine ⟨before.1,fun member => ?_⟩
      rcases List.mem_cons.mp member with equal | inside
      · have read : reads (s.calls u) = some node := by rw [there,reads,equal]
        exact absurd read (old.apart t u node mine)
      · exact before.2 inside
    | pushExchange other oldHead => rw [there] at before; exact before
    | popNext oldHead => rw [there] at before; exact before
    | idle | pushLoad | pushLink | popLoad | popCheck | popTake => trivial
  · exact apart_update old.apart (fun _ absent => by cases absent) rfl

-- The node on top goes into the hands of the pop, with the link it read.
theorem Kept.won (old : Kept s chain) {link : BitVec 64} (here : s.calls t = .popExchange s.head link) :
    ∃ rest, chain = ptr s.head :: rest ∧ Kept (s.step t) rest := by
  have sound := old.sound t
  rw [here] at sound
  obtain ⟨full,read⟩ := sound
  obtain ⟨rest,whole,linked⟩ := old.head full
  subst whole
  have same := read List.mem_cons_self
  have outside : ptr s.head ∉ rest := (List.nodup_cons.mp (old.places.once .stack)).1
  have short : Short link := by
    rw [same]
    by_cases last : s.next (ptr s.head) = 0
    · rw [last]
      exact short_zero
    · obtain ⟨below,later,_⟩ := linked.pop last
      refine (old.real _ (old.known (List.mem_cons_of_mem _ ?_))).2
      rw [later]
      exact List.mem_cons_self
  have taken : s.step t = {s.put t (.popTake (ptr s.head)) with head := pack link (tag s.head + 1)} := by
    simp only [step,here,if_true]
  refine ⟨rest,rfl,?_⟩
  rw [taken]
  refine ⟨?_,?_,old.real,?_,?_,?_⟩
  · dsimp only [put]
    rw [ptr_pack short,same]
    exact linked
  · have arrived : (contents {s.put t (.popTake (ptr s.head)) with head := pack link (tag s.head + 1)} rest (.hand t)).Perm
        (ptr s.head :: s.contents (ptr s.head :: rest) (.hand t)) := by
      simp [contents,put,here,inHand,pushes]
    have left : (s.contents (ptr s.head :: rest) .stack).Perm (ptr s.head ::
        contents {s.put t (.popTake (ptr s.head)) with head := pack link (tag s.head + 1)} rest .stack) := .refl _
    have differ : Place.stack ≠ .hand t := fun absent => (by cases absent)
    refine old.places.move differ left arrived ?_
    intro place differ apart
    cases place with
    | stack => exact absurd rfl differ
    | hand u =>
      have other : u ≠ t := fun equal => apart (by rw [equal])
      simp only [contents,put,Function.update_of_ne other]
  · exact tally_same old.held fun other => by rw [here]; rfl
  · refine sound_update (fun u _ => ?_) trivial
    have before := old.sound u
    cases there : s.calls u with
    | popExchange oldHead next =>
      rw [there] at before
      exact ⟨before.1,fun member => before.2 (List.mem_cons_of_mem _ member)⟩
    | pushExchange other oldHead => rw [there] at before; exact before
    | popNext oldHead => rw [there] at before; exact before
    | idle | pushLoad | pushLink | popLoad | popCheck | popTake => trivial
  · exact apart_update old.apart (fun _ absent => (by cases absent)) rfl

theorem held_less (old : ∀ node, Tally (holds node) s.calls (s.holders node)) {node : BitVec 64} (mine : ∀ other,
    holds other (s.calls t) = (node == other)) (none : ∀ other, holds other call = false) (other : BitVec 64) :
    Tally (holds other) (Function.update s.calls t call) (Function.update s.holders node (s.holders node - 1) other) := by
  have moved := (old other).update t call
  rw [mine,none] at moved
  by_cases equal : other = node
  · rw [equal] at moved ⊢
    rw [Function.update_self]
    simpa using moved
  · rw [Function.update_of_ne equal]
    rw [beq_eq_false_iff_ne.mpr (Ne.symm equal)] at moved
    exact moved

theorem held_more (old : ∀ node, Tally (holds node) s.calls (s.holders node)) {node : BitVec 64} (free : ∀ other,
    holds other (s.calls t) = false) (now : ∀ other, holds other call = (node == other)) (other : BitVec 64) :
    Tally (holds other) (Function.update s.calls t call) (Function.update s.holders node (s.holders node + 1) other) := by
  have moved := (old other).update t call
  rw [free,now] at moved
  by_cases equal : other = node
  · rw [equal] at moved ⊢
    rw [Function.update_self]
    simpa using moved
  · rw [Function.update_of_ne equal]
    rw [beq_eq_false_iff_ne.mpr (Ne.symm equal)] at moved
    exact moved

-- A pop's node is deleted.
theorem Kept.taken (old : Kept s chain) {node : BitVec 64} (here : s.calls t = .popTake node) : Kept (s.step t) chain := by
  have taken : s.step t = {s.returns t node (some (s.data node)) with live := Function.update s.live node false} := by
    simp only [step,here]
  have lives : ∀ other, Function.update s.live node false other = true ↔ s.live other = true ∧ other ≠ node := by
    intro other
    by_cases equal : other = node
    · simp [equal]
    · simp [equal]
  rw [taken]
  refine ⟨old.linked,?_,fun other live => old.real other ((lives other).mp live).1,?_,?_,?_⟩
  · have left : (s.contents chain (.hand t)).Perm
        (node :: contents {s.returns t node (some (s.data node)) with live := Function.update s.live node false} chain (.hand t)) := by
      simp [contents,returns,put,here,inHand,pushes]
    refine old.places.leave (.hand t) node left ?_ lives
    intro place differ
    cases place with
    | stack => rfl
    | hand u =>
      have other : u ≠ t := fun equal => differ (by rw [equal])
      simp only [contents,returns,put,Function.update_of_ne other]
  · exact held_less old.held (fun other => by rw [here]; rfl) fun _ => rfl
  · exact sound_update (fun u _ => old.sound u) trivial
  · exact apart_update old.apart (fun _ absent => (by cases absent)) rfl

-- new gives a node that nothing refers to.
theorem Kept.made (old : Kept s chain) {node : BitVec 64} {val : T} (able : s.allowed (.push t val node) = true) :
    Kept (s.apply (.push t val node)) chain := by
  simp only [allowed,Bool.and_eq_true,beq_iff_eq,bne_iff_ne,decide_eq_true_eq,Bool.not_eq_true'] at able
  obtain ⟨⟨⟨⟨idle,real⟩,low⟩,dead⟩,free⟩ := able
  have unread : ∀ u, holds node (s.calls u) = false := (old.held node).eq_zero_iff.mp free
  have outside : node ∉ chain := fun member => by
    rw [old.known member] at dead
    cases dead
  have same : ∀ other ∈ chain, Function.update s.next node 0 other = s.next other := by
    intro other member
    refine Function.update_of_ne ?_ _ _
    rintro rfl
    exact outside member
  have lives : ∀ other, Function.update s.live node true other = true ↔ s.live other = true ∨ other = node := by
    intro other
    by_cases equal : other = node
    · simp [equal]
    · simp [equal]
  simp only [apply]
  refine ⟨old.linked.frame same,?_,?_,?_,?_,?_⟩
  · have arrived : (contents {s.put t (.pushLoad node) with
        next := Function.update s.next node 0
        data := Function.update s.data node val
        live := Function.update s.live node true} chain (.hand t)).Perm (node :: s.contents chain (.hand t)) := by
      simp [contents,put,idle,inHand,pushes]
    refine old.places.enter (by rw [dead]; exact Bool.false_ne_true) (.hand t) arrived ?_ lives
    intro place differ
    cases place with
    | stack => rfl
    | hand u =>
      have other : u ≠ t := fun equal => differ (by rw [equal])
      simp only [contents,put,Function.update_of_ne other]
  · intro other live
    rcases (lives other).mp live with before | rfl
    · exact old.real other before
    · exact ⟨real,Nat.lt_trans low (by decide)⟩
  · exact tally_same old.held fun other => by rw [idle]; rfl
  · refine sound_update (fun u _ => (old.sound u).link same fun other theirs => Function.update_of_ne ?_ _ _) trivial
    rintro rfl
    rw [(old.pushing theirs).1] at dead
    cases dead
  · intro u other pushed member
    have unreads : ∀ v, reads (Function.update s.calls t (.pushLoad node) v) = some node → False := by
      intro v here
      by_cases equal : v = t
      · rw [equal,Function.update_self] at here
        cases here
      · rw [Function.update_of_ne equal] at here
        have held := reads_holds here
        rw [unread v] at held
        cases held
    by_cases equal : u = t
    · dsimp only [put] at member
      rw [equal,Function.update_self] at member
      cases List.mem_singleton.mp member
      exact unreads other
    · dsimp only [put] at member ⊢
      rw [Function.update_of_ne equal] at member
      by_cases mine : other = t
      · rw [mine,Function.update_self]
        exact fun absent => (by cases absent)
      · rw [Function.update_of_ne mine]
        exact old.apart u other pushed member

variable {a : AtomicObject (List T) (StackOp T) (StackOut T) Tid}

-- The data of a node stays as long as the node is in use.
theorem view_frame {data grown : BitVec 64 → T} (same : ∀ node ∈ inHand call, grown node = data node) : view grown call = view data call := by
  cases call with
  | pushLoad node | pushLink node _ | pushExchange node _ | popTake node => simp only [view,same node List.mem_cons_self]
  | idle | popLoad | popNext | popExchange => rfl
  | popCheck oldHead => rfl

theorem Shows.step (old : Shows s a chain) (t : Tid) (call : StackCall) (kept : Kept after others) (calls : after.calls = Function.update s.calls t call)
    (data : after.data = s.data) {state : List T} (same : state = others.map s.data) :
    Shows after (a.put state t (view s.data call)) others := by
  refine ⟨kept,by rw [data]; exact same,fun u => ?_⟩
  rw [data,calls]
  simp only [AtomicObject.put]
  by_cases equal : u = t
  · rw [equal,Function.update_self,Function.update_self]
  · rw [Function.update_of_ne equal,Function.update_of_ne equal]
    exact old.calls u

-- What the callers do not see.
theorem Shows.quiet (old : Shows s a chain) (t : Tid) (call : StackCall) (kept : Kept after chain) (calls : after.calls = Function.update s.calls t call)
    (data : after.data = s.data) (same : view s.data call = view s.data (s.calls t)) : Shows after a chain := by
  refine ⟨kept,by rw [data]; exact old.state,fun u => ?_⟩
  rw [data,calls]
  by_cases equal : u = t
  · rw [equal,Function.update_self,same]
    exact old.calls t
  · rw [Function.update_of_ne equal]
    exact old.calls u

-- Some steps of the atomic stack lead from a to a state that s shows, and the
-- callers see these events.
def Follows (s : LFStack T Tid) (a : AtomicObject (List T) (StackOp T) (StackOut T) Tid)
    (events : List (AtomicObject.Event (StackOp T) (StackOut T) Tid)) : Prop :=
  ∃ final chain, AtomicObject.Shown (.performs StackOp.perform) [] a final events ∧ Shows s final chain

theorem Shows.follows (now : Shows s a chain) : Follows s a [] := ⟨a,chain,AtomicObject.shown_nothing,now⟩

theorem Shows.popLoad (old : Shows s a chain) (here : s.calls t = .popLoad) : Follows (s.step t) a [] := by
  have loaded : s.load = s.head := load_eq s
  have taken : s.step t = {s.put t (.popCheck s.head) with
      holders := Function.update s.holders (ptr s.head) (s.holders (ptr s.head) + 1)} := by
    simp only [LFStack.step,here,loaded]
  have kept : Kept (s.step t) chain := by
    rw [taken]
    refine old.kept.turn rfl rfl rfl rfl (by rw [here]; rfl) ?_ trivial ?_ (by rw [here]; rfl)
    · exact held_more old.kept.held (fun other => by rw [here]; rfl) fun other => by
        simp [holds,reads]
    · intro node read
      refine .inr fun u member => ?_
      obtain ⟨live,outside⟩ := old.kept.pushing member
      cases Option.some.inj read
      by_cases empty : ptr s.head = 0
      · exact (old.kept.real _ live).1 empty
      · obtain ⟨rest,whole,_⟩ := old.kept.head empty
        exact outside (by rw [whole]; exact List.mem_cons_self)
  by_cases empty : ptr s.head = 0
  · have bare : chain = [] := old.kept.linked.empty empty
    have called : a.calls t = .called .pop := by rw [old.calls t,here]; rfl
    have state : a.state = [] := by rw [old.state,bare]; rfl
    have effect : StackOp.perform .pop a.state = (([],.popped none) : List T × StackOut T) := by rw [state]; rfl
    refine ⟨_,chain,AtomicObject.shown_effect called effect AtomicObject.shown_nothing,?_⟩
    have shows : Shows (s.step t) (a.put [] t (view s.data (.popCheck s.head))) chain :=
      old.step t (.popCheck s.head) kept (by rw [taken]; rfl) (by rw [taken]; rfl) (by rw [bare]; rfl)
    simpa [view,empty] using shows
  · refine (old.quiet t (.popCheck s.head) kept (by rw [taken]; rfl) (by rw [taken]; rfl) ?_).follows
    have reading : view s.data (.popCheck s.head) = .called .pop := if_neg empty
    rw [here,reading]
    rfl

theorem Shows.pushExchange (old : Shows s a chain) {node oldHead : BitVec 64} (here : s.calls t = .pushExchange node oldHead) :
    Follows (s.step t) a ((s.returning t).toList.map (.returned t)) := by
  by_cases same : s.head = oldHead
  · subst same
    have taken : s.step t = {s.put t .idle with head := pack node (tag s.head)} := by simp only [LFStack.step,here,if_true]
    have called : a.calls t = .called (.push (s.data node)) := by rw [old.calls t,here]; rfl
    have effect : StackOp.perform (.push (s.data node)) a.state = (s.data node :: a.state,.pushed) := rfl
    have seen : s.returning t = some .pushed := by simp only [returning,here,if_true]
    have shows : Shows (s.step t) (a.put (s.data node :: a.state) t (view s.data .idle)) (node :: chain) :=
      old.step t .idle (old.kept.pushed here) (by rw [taken]; rfl) (by rw [taken]; rfl) (by rw [old.state]; rfl)
    rw [seen]
    refine ⟨_,node :: chain,AtomicObject.shown_effect called effect (AtomicObject.shown_finish (AtomicObject.put_calls ..)),?_⟩
    simpa [AtomicObject.put,view] using shows
  · have taken : s.step t = s.put t (.pushLink node oldHead) := by simp only [LFStack.step,here,if_neg same]
    have seen : s.returning t = none := by simp only [returning,here,if_neg same]
    have kept : Kept (s.step t) chain := by
      rw [taken]
      exact old.kept.turn rfl rfl rfl rfl (by rw [here]; rfl) (tally_same old.kept.held fun other => by rw [here]; rfl) trivial
        (fun _ absent => (by cases absent)) (by rw [here]; rfl)
    rw [seen]
    exact (old.quiet t (.pushLink node oldHead) kept (by rw [taken]; rfl) (by rw [taken]; rfl)
      (by rw [here]; rfl)).follows

theorem Shows.popCheck (old : Shows s a chain) {oldHead : BitVec 64} (here : s.calls t = .popCheck oldHead) :
    Follows (s.step t) a ((s.returning t).toList.map (.returned t)) := by
  by_cases empty : ptr oldHead = 0
  · have taken : s.step t = s.returns t (ptr oldHead) none := by simp only [LFStack.step,here,if_pos empty]
    have seen : s.returning t = some (.popped none) := by simp only [returning,here,if_pos empty]
    have done : a.calls t = .done (.popped none) := by
      rw [old.calls t,here]
      exact if_pos empty
    have kept : Kept (s.step t) chain := by
      rw [taken]
      refine old.kept.turn rfl rfl rfl rfl (by rw [here]; rfl) ?_ trivial (fun _ absent => (by cases absent)) (by rw [here]; rfl)
      exact held_less old.kept.held (fun other => by rw [here]; simp [holds,reads]) fun _ => rfl
    rw [seen]
    refine ⟨_,chain,AtomicObject.shown_finish done,?_⟩
    exact old.step t .idle kept (by rw [taken]; rfl) (by rw [taken]; rfl) old.state
  · have taken : s.step t = s.put t (.popNext oldHead) := by simp only [LFStack.step,here,if_neg empty]
    have seen : s.returning t = none := by simp only [returning,here,if_neg empty]
    have kept : Kept (s.step t) chain := by
      rw [taken]
      exact old.kept.turn rfl rfl rfl rfl (by rw [here]; rfl) (tally_same old.kept.held fun other => by rw [here]; rfl) empty
        (fun _ read => .inl (by rw [here]; exact read)) (by rw [here]; rfl)
    have reading : view s.data (.popCheck oldHead) = .called .pop := if_neg empty
    rw [seen]
    exact (old.quiet t (.popNext oldHead) kept (by rw [taken]; rfl) (by rw [taken]; rfl)
      (by rw [here,reading]; rfl)).follows

theorem Shows.popExchange (old : Shows s a chain) {oldHead link : BitVec 64} (here : s.calls t = .popExchange oldHead link) :
    Follows (s.step t) a [] := by
  by_cases same : s.head = oldHead
  · subst same
    obtain ⟨rest,whole,kept⟩ := old.kept.won here
    have taken : s.step t = {s.put t (.popTake (ptr s.head)) with head := pack link (tag s.head + 1)} := by
      simp only [LFStack.step,here,if_true]
    have called : a.calls t = .called .pop := by rw [old.calls t,here]; rfl
    have effect : StackOp.perform .pop a.state = (rest.map s.data,.popped (some (s.data (ptr s.head)))) := by
      rw [old.state,whole]
      rfl
    refine ⟨_,rest,AtomicObject.shown_effect called effect AtomicObject.shown_nothing,?_⟩
    exact old.step t (.popTake (ptr s.head)) kept (by rw [taken]; rfl) (by rw [taken]; rfl) rfl
  · have full : ptr oldHead ≠ 0 := by
      have sound := old.kept.sound t
      rw [here] at sound
      exact sound.1
    have taken : s.step t = s.put t (.popCheck oldHead) := by simp only [LFStack.step,here,if_neg same]
    have kept : Kept (s.step t) chain := by
      rw [taken]
      exact old.kept.turn rfl rfl rfl rfl (by rw [here]; rfl) (tally_same old.kept.held fun other => by rw [here]; rfl) trivial
        (fun _ read => .inl (by rw [here]; exact read)) (by rw [here]; rfl)
    have reading : view s.data (.popCheck oldHead) = .called .pop := if_neg full
    exact (old.quiet t (.popCheck oldHead) kept (by rw [taken]; rfl) (by rw [taken]; rfl)
      (by rw [here,reading]; rfl)).follows

-- One step of a thread.
theorem Shows.steps (old : Shows s a chain) (t : Tid) : Follows (s.step t) a ((s.returning t).toList.map (.returned t)) := by
  cases here : s.calls t with
  | idle =>
    have taken : s.step t = s := by simp only [LFStack.step,here]
    have seen : s.returning t = none := by simp only [returning,here]
    rw [taken,seen]
    exact old.follows
  | pushLoad node =>
    have taken : s.step t = s.put t (.pushLink node s.load) := by simp only [LFStack.step,here]
    have seen : s.returning t = none := by simp only [returning,here]
    have kept : Kept (s.step t) chain := by
      rw [taken]
      exact old.kept.turn rfl rfl rfl rfl (by rw [here]; rfl) (tally_same old.kept.held fun other => by rw [here]; rfl) trivial
        (fun _ absent => (by cases absent)) (by rw [here]; rfl)
    rw [seen]
    exact (old.quiet t (.pushLink node s.load) kept (by rw [taken]; rfl) (by rw [taken]; rfl)
      (by rw [here]; rfl)).follows
  | pushLink node oldHead =>
    have seen : s.returning t = none := by simp only [returning,here]
    rw [seen]
    exact (old.quiet t (.pushExchange node oldHead) (old.kept.pushLink here) (by simp only [LFStack.step,here]; rfl)
      (by simp only [LFStack.step,here]; rfl) (by rw [here]; rfl)).follows
  | pushExchange node oldHead => exact old.pushExchange here
  | popLoad =>
    have seen : s.returning t = none := by simp only [returning,here]
    rw [seen]
    exact old.popLoad here
  | popCheck oldHead => exact old.popCheck here
  | popNext oldHead =>
    have taken : s.step t = s.put t (.popExchange oldHead (s.next (ptr oldHead))) := by simp only [LFStack.step,here]
    have seen : s.returning t = none := by simp only [returning,here]
    have full : ptr oldHead ≠ 0 := by
      have sound := old.kept.sound t
      rw [here] at sound
      exact sound
    have kept : Kept (s.step t) chain := by
      rw [taken]
      exact old.kept.turn rfl rfl rfl rfl (by rw [here]; rfl) (tally_same old.kept.held fun other => by rw [here]; rfl)
        ⟨full,fun _ => rfl⟩ (fun _ read => .inl (by rw [here]; exact read)) (by rw [here]; rfl)
    rw [seen]
    exact (old.quiet t (.popExchange oldHead (s.next (ptr oldHead))) kept (by rw [taken]; rfl) (by rw [taken]; rfl)
      (by rw [here]; rfl)).follows
  | popExchange oldHead link =>
    have seen : s.returning t = none := by simp only [returning,here]
    rw [seen]
    exact old.popExchange here
  | popTake node =>
    have taken : s.step t = {s.returns t node (some (s.data node)) with live := Function.update s.live node false} := by
      simp only [LFStack.step,here]
    have seen : s.returning t = some (.popped (some (s.data node))) := by simp only [returning,here]
    have done : a.calls t = .done (.popped (some (s.data node))) := by rw [old.calls t,here]; rfl
    rw [seen]
    refine ⟨_,chain,AtomicObject.shown_finish done,?_⟩
    exact old.step t .idle (old.kept.taken here) (by rw [taken]; rfl) (by rw [taken]; rfl) old.state

theorem Shows.push (old : Shows s a chain) {node : BitVec 64} {val : T} (able : s.allowed (.push t val node) = true) :
    Follows (s.apply (.push t val node)) a [.called t (.push val)] := by
  have idle : s.calls t = .idle := by
    simp only [allowed,Bool.and_eq_true,beq_iff_eq] at able
    exact able.1.1.1.1
  have dead : s.live node = false := by
    simp only [allowed,Bool.and_eq_true,Bool.not_eq_true'] at able
    exact able.1.2
  have same : ∀ other, s.live other = true → Function.update s.data node val other = s.data other := by
    intro other live
    refine Function.update_of_ne ?_ _ _
    rintro rfl
    rw [dead] at live
    cases live
  have called : a.calls t = .idle := by rw [old.calls t,idle]; rfl
  refine ⟨_,chain,AtomicObject.shown_call called (.push val),old.kept.made able,?_,fun u => ?_⟩
  · exact old.state.trans (List.map_congr_left fun other member => (same other (old.kept.known member)).symm)
  · simp only [apply,AtomicObject.put,LFStack.put]
    by_cases equal : u = t
    · rw [equal,Function.update_self,Function.update_self,view,Function.update_self]
    · rw [Function.update_of_ne equal,Function.update_of_ne equal,old.calls u]
      refine (view_frame fun other member => same other ?_).symm
      exact (old.kept.places.known_iff other).mpr ⟨.hand u,member⟩

theorem Shows.pop (old : Shows s a chain) (able : s.allowed (.pop t) = true) : Follows (s.apply (.pop t)) a [.called t .pop] := by
  have idle : s.calls t = .idle := by simpa [allowed] using able
  have called : a.calls t = .idle := by rw [old.calls t,idle]; rfl
  have kept : Kept (s.apply (.pop t)) chain := by
    refine old.kept.turn rfl rfl rfl rfl (by rw [idle]; rfl) ?_ trivial (fun _ absent => (by cases absent)) (by rw [idle]; rfl)
    exact tally_same old.kept.held fun other => by rw [idle]; rfl
  exact ⟨_,chain,AtomicObject.shown_call called .pop,old.step t .popLoad kept rfl rfl old.state⟩

theorem Shows.next (old : Shows s a chain) {initial : T} {label : Label T Tid}
    (taken : (machine initial).next s label = some after) : Follows after a (sees s label after) := by
  obtain ⟨able,same⟩ := Machine.guarded_parts.mp taken
  rw [← same]
  cases label with
  | push t val node => exact old.push able
  | pop t => exact old.pop able
  | step t => exact old.steps t

omit [DecidableEq Tid] in
theorem new_kept (initial : T) : Kept (new initial : LFStack T Tid) [] := by
  refine ⟨?_,?_,fun _ absent => (by cases absent),fun _ => .none fun _ => rfl,fun _ => trivial,fun _ _ _ absent => (by cases absent)⟩
  · have empty : ptr (0 : BitVec 64) = 0 := by decide
    change Linked 0 (fun _ => 0) (ptr 0) []
    rw [empty]
    exact .nil
  · refine .none (fun _ => Bool.false_ne_true) fun place => ?_
    cases place with
    | stack => rfl
    | hand t => rfl

theorem matched (initial : T) (s : LFStack T Tid) (a : AtomicObject (List T) (StackOp T) (StackOut T) Tid) (label : Label T Tid)
    (after : LFStack T Tid) (shows : ∃ chain, Shows s a chain) (_ : True) (taken : (machine initial).next s label = some after) :
    ∃ steps final, (AtomicObject.machine (.performs StackOp.perform) []).run a steps = some final ∧
      (AtomicObject.machine (.performs StackOp.perform) []).trace AtomicObject.shows a steps = sees s label after ∧
      ∃ chain, Shows after final chain := by
  obtain ⟨chain,old⟩ := shows
  obtain ⟨final,grown,⟨steps,ran,seen⟩,now⟩ := old.next taken
  exact ⟨steps,final,ran,seen,grown,now⟩

-- What the callers of push and pop see in any run is a run of a stack on which
-- each call takes effect at once; and the nodes reachable from head_ hold its
-- contents, every other node that was not deleted being in the hands of a call.
theorem refines_stack {initial : T} {labels : List (Label T Tid)} {final : LFStack T Tid}
    (ran : (machine initial).run (new initial) labels = some final) :
    ∃ stack chain, AtomicObject.Shown (.performs StackOp.perform) [] ⟨[],fun _ => .idle⟩ stack
        ((machine initial).trace sees (new initial) labels) ∧
      Linked 0 final.next (ptr final.head) chain ∧ stack.state = chain.map final.data ∧
      ∀ node, final.live node = true ↔ node ∈ chain ∨ ∃ t, node ∈ inHand (final.calls t) := by
  have started : Shows (new initial : LFStack T Tid) ⟨[],fun _ => .idle⟩ [] := ⟨new_kept initial,rfl,fun _ => rfl⟩
  obtain ⟨steps,stack,reached,seen,chain,shows⟩ :=
    Machine.simulates (matched initial) ⟨[],started⟩ (Machine.meets_labels fun _ _ _ => trivial) ran
  refine ⟨stack,chain,⟨steps,reached,seen⟩,shows.kept.linked,shows.state,fun node => ?_⟩
  rw [shows.kept.places.known_iff node]
  constructor
  · rintro ⟨place,here⟩
    cases place with
    | stack => exact .inl here
    | hand t => exact .inr ⟨t,here⟩
  · rintro (here | ⟨t,here⟩)
    · exact ⟨.stack,here⟩
    · exact ⟨.hand t,here⟩

theorem turns_of_a_stack : ∃ s, (machine 0).run (new 0) takeTurns = some s ∧ ∃ stack : AtomicObject (List Nat) (StackOp Nat) (StackOut Nat) Bool,
    AtomicObject.Shown (.performs StackOp.perform) [] ⟨[],fun _ => .idle⟩ stack
      [.called true (.push 7),.returned true .pushed,.called false .pop,.returned false (.popped (some 7)),.called true .pop] := by
  have found : ((machine 0).run (new 0) takeTurns).isSome = true := by decide +kernel
  have seen : (machine 0).trace sees (new 0) takeTurns =
      [.called true (.push 7),.returned true .pushed,.called false .pop,.returned false (.popped (some 7)),.called true .pop] := by
    decide +kernel
  obtain ⟨s,ran⟩ := Option.isSome_iff_exists.mp found
  obtain ⟨stack,_,shown,_⟩ := refines_stack ran
  rw [seen] at shown
  exact ⟨s,ran,stack,shown⟩

end LFStack
end NewMuduo
