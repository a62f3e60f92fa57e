import NewMuduo.Machine
import NewMuduo.TcpConnection
import Mathlib.Logic.Function.Basic

namespace NewMuduo
namespace ConnRefs

-- The public members that another thread calls with a TcpConnectionPtr.
inductive Method where
  | send
  | shutdown
  | forceClose
  | forceCloseWithDelay
  | startRead
  | stopRead
  deriving DecidableEq, Repr

-- The closures that end up in pendingFunctors_ of the connection's loop;
-- callback is writeCompleteCallback_ or highWaterMarkCallback_.
inductive Closure where
  | sendInLoop
  | shutdownInLoop
  | startRead
  | stopRead
  | forceCloseInLoop
  | addTimerInLoop
  | callback
  | connectDestroyed
  deriving DecidableEq, Repr

-- The others capture the bare this. addTimerInLoop has the Timer, whose
-- callback captures shared_from_this.
def Closure.shares : Closure → Bool
  | .forceCloseInLoop | .addTimerInLoop | .callback | .connectDestroyed => true
  | .sendInLoop | .shutdownInLoop | .startRead | .stopRead => false

def Method.closure : Method → Closure
  | .send => .sendInLoop
  | .shutdown => .shutdownInLoop
  | .forceClose => .forceCloseInLoop
  | .forceCloseWithDelay => .addTimerInLoop
  | .startRead => .startRead
  | .stopRead => .stopRead

-- The member goes on at this state_.
def Method.passes (state : StateE) : Method → Bool
  | .send | .shutdown => state == .kConnected
  | .forceClose | .forceCloseWithDelay => state == .kConnected || state == .kDisconnecting
  | .startRead | .stopRead => true

-- It calls setState(kDisconnecting) before it posts.
def Method.marks : Method → Bool
  | .shutdown | .forceClose | .forceCloseWithDelay => true
  | .send | .startRead | .stopRead => false

-- Where a thread stands in such a member.
inductive Place where
  | idle
  | sets (method : Method)
  | queues (method : Method)
  deriving DecidableEq, Repr

def Place.isSets : Place → Bool
  | .sets _ => true
  | .idle | .queues _ => false

def Place.isQueues : Place → Bool
  | .queues _ => true
  | .idle | .sets _ => false

end ConnRefs

open ConnRefs in
-- A connection as the things that hold a TcpConnectionPtr to it: connections_ of
-- the server, threads, the guard of Channel::handleEvent, closures in
-- pendingFunctors_ and in the vector that doPendingFunctors runs (next of it have
-- run), removeConnectionInLoop on the server's loop before and after it runs, and
-- timers of forceCloseWithDelay before and after they expire. closing says that
-- handleClose has still to call closeCallback_; executed has each closure that
-- ran with whether anything held the connection.
structure ConnRefs (Tid : Type) where
  ownLoop : Bool
  state : StateE
  listed : Bool
  holders : List Tid
  places : Tid → Place
  guard : Bool
  closing : Bool
  pendingFunctors : List Closure
  functors : List Closure
  next : Nat
  removals : Nat
  removed : Nat
  armed : Nat
  expired : Nat
  executed : List (Closure × Bool)

namespace ConnRefs
variable {Tid : Type} {s after : ConnRefs Tid} {t : Tid}

inductive Label (Tid : Type) where
  | copy (t : Tid)
  | call (t : Tid) (method : Method)
  | setState (t : Tid)
  | queueInLoop (t : Tid)
  | drop (t : Tid)
  | handleEvent
  | queueCallback
  | handleClose
  | closeCallback
  | handled
  | swap
  | runFunctor
  | functorsDone
  | removeConnectionInLoop
  | removalDone
  | expire
  | reset
  deriving DecidableEq, Repr

-- Some shared_ptr to the connection exists.
def held (s : ConnRefs Tid) : Bool :=
  s.listed || !s.holders.isEmpty || s.guard || decide (0 < s.removals + s.removed + s.armed + s.expired) ||
    (s.functors ++ s.pendingFunctors).any Closure.shares

-- The closures that have not run.
def waiting (s : ConnRefs Tid) : List Closure := s.functors.drop s.next ++ s.pendingFunctors

def push (s : ConnRefs Tid) (cb : Closure) : ConnRefs Tid := {s with pendingFunctors := s.pendingFunctors ++ [cb]}

def handleClose (s : ConnRefs Tid) : ConnRefs Tid := {s with state := .kDisconnected,closing := true}

def forceCloseInLoop (s : ConnRefs Tid) : ConnRefs Tid :=
  if s.state = .kConnected ∨ s.state = .kDisconnecting then s.handleClose else s

def removeConnectionInLoop (s : ConnRefs Tid) : ConnRefs Tid := {s with listed := false}.push .connectDestroyed

-- closeCallback_ runs removeConnectionInLoop at once on the server's loop.
def removeConnection (s : ConnRefs Tid) : ConnRefs Tid :=
  if s.ownLoop then s.removeConnectionInLoop else {s with removals := s.removals + 1}

def perform (s : ConnRefs Tid) : Closure → ConnRefs Tid
  | .forceCloseInLoop => s.forceCloseInLoop
  | .connectDestroyed => if s.state = .kConnected then {s with state := .kDisconnected} else s
  | .addTimerInLoop => {s with armed := s.armed + 1}
  | .sendInLoop | .shutdownInLoop | .startRead | .stopRead | .callback => s

def runFunctor (s : ConnRefs Tid) : ConnRefs Tid :=
  match s.functors[s.next]? with
  | some cb => {s with next := s.next + 1,executed := s.executed ++ [(cb,s.held)]}.perform cb
  | none => s

variable [DecidableEq Tid]

def moves (s : ConnRefs Tid) (t : Tid) (place : Place) : ConnRefs Tid :=
  {s with places := Function.update s.places t place}

-- A thread calls with a TcpConnectionPtr of its own, and drops it between calls.
-- The loop thread is handling an event or expired timers, or it runs functors.
def allowed (s : ConnRefs Tid) : Label Tid → Prop
  | .copy _ => s.held = true
  | .call t _ | .drop t => t ∈ s.holders ∧ s.places t = .idle
  | .setState t => (s.places t).isSets = true
  | .queueInLoop t => (s.places t).isQueues = true
  | .handleEvent => s.held = true ∧ s.guard = false ∧ s.closing = false ∧ s.functors = []
  | .queueCallback => s.held = true ∧ (s.guard = true ∨ 0 < s.next)
  | .handleClose | .handled => s.guard = true ∧ s.closing = false
  | .closeCallback => s.closing = true
  | .swap => s.guard = false ∧ s.closing = false ∧ s.functors = []
  | .runFunctor => s.closing = false ∧ s.next < s.functors.length
  | .functorsDone => s.closing = false ∧ s.next = s.functors.length
  | .removeConnectionInLoop => 0 < s.removals
  | .removalDone => 0 < s.removed
  | .expire => 0 < s.armed ∧ s.guard = false ∧ s.closing = false ∧ s.functors = []
  | .reset => 0 < s.expired ∧ s.closing = false

def apply (s : ConnRefs Tid) : Label Tid → ConnRefs Tid
  | .copy t => {s with holders := t :: s.holders}
  | .call t method =>
    if method.passes s.state then s.moves t (if method.marks then .sets method else .queues method) else s
  | .setState t => match s.places t with
    | .sets method => {s with state := .kDisconnecting}.moves t (.queues method)
    | _ => s
  | .queueInLoop t => match s.places t with
    | .queues method => (s.push method.closure).moves t .idle
    | _ => s
  | .drop t => {s with holders := s.holders.erase t}
  | .handleEvent => {s with guard := true}
  | .queueCallback => s.push .callback
  | .handleClose => s.handleClose
  | .closeCallback => {s with closing := false}.removeConnection
  | .handled => {s with guard := false}
  | .swap => {s with functors := s.pendingFunctors,pendingFunctors := [],next := 0}
  | .runFunctor => s.runFunctor
  | .functorsDone => {s with functors := [],next := 0}
  | .removeConnectionInLoop => {s with removals := s.removals - 1,removed := s.removed + 1}.removeConnectionInLoop
  | .removalDone => {s with removed := s.removed - 1}
  | .expire => {s with armed := s.armed - 1,expired := s.expired + 1}.forceCloseInLoop
  | .reset => {s with expired := s.expired - 1}

instance (s : ConnRefs Tid) (label : Label Tid) : Decidable (s.allowed label) := by
  cases label <;> (unfold allowed; infer_instance)

-- connectEstablished has run, on the server's loop or another.
def new (ownLoop : Bool) : ConnRefs Tid :=
  ⟨ownLoop,.kConnected,true,[],fun _ => .idle,false,false,[],[],0,0,0,0,0,[]⟩

def machine : Machine (ConnRefs Tid) (Label Tid) := .guarded (fun s => ∃ ownLoop, s = new ownLoop) allowed apply

-- A closure runs while the connection exists.
def Exists (s : ConnRefs Tid) : Prop := ∀ entry ∈ s.executed, entry.2 = true

-- The last TcpConnectionPtr goes when no closure is left to run.
def Outlives (s : ConnRefs Tid) (label : Label Tid) : Prop :=
  s.held = true → (s.apply label).held = false → s.waiting = []

-- A thread in a call and a close under way hold the connection.
structure Formed (s : ConnRefs Tid) : Prop where
  calling : ∀ t, s.places t ≠ .idle → t ∈ s.holders
  closing : s.closing = true → s.guard = true ∨ 0 < s.expired ∨ s.functors.any Closure.shares = true

structure Kept (s : ConnRefs Tid) : Prop where
  formed : Formed s
  exist : Exists s
  gone : s.held = false → s.waiting = []

-- Nothing holds the connection any more, and a closure is going to use it.
structure Doomed (s : ConnRefs Tid) : Prop where
  formed : Formed s
  free : s.held = false
  left : s.waiting ≠ []

omit [DecidableEq Tid] in
theorem held_iff : s.held = true ↔ s.listed = true ∨ s.holders ≠ [] ∨ s.guard = true ∨
    0 < s.removals + s.removed + s.armed + s.expired ∨ (s.functors ++ s.pendingFunctors).any Closure.shares = true := by
  simp [held,or_assoc]

-- What can be seen of a connection that nothing holds.
structure Unheld (s : ConnRefs Tid) : Prop where
  listed : s.listed = false
  holders : s.holders = []
  guard : s.guard = false
  counts : s.removals = 0 ∧ s.removed = 0 ∧ s.armed = 0 ∧ s.expired = 0
  functors : s.functors.any Closure.shares = false
  pending : s.pendingFunctors.any Closure.shares = false

omit [DecidableEq Tid] in
theorem unheld (free : s.held = false) : Unheld s := by
  simp only [held,Bool.or_eq_false_iff,List.any_append,decide_eq_false_iff_not,Bool.not_eq_false',List.isEmpty_iff] at free
  obtain ⟨⟨⟨⟨listed,holders⟩,guard⟩,counts⟩,functors,pending⟩ := free
  exact ⟨listed,holders,guard,⟨by omega,by omega,by omega,by omega⟩,functors,pending⟩

omit [DecidableEq Tid] in
theorem push_held (s : ConnRefs Tid) (shares : cb.shares = true) : (s.push cb).held = true := by
  refine held_iff.mpr (.inr (.inr (.inr (.inr ?_))))
  simp [push,shares]

omit [DecidableEq Tid] in
theorem forceCloseInLoop_parts (s : ConnRefs Tid) : ∃ state closing,
    s.forceCloseInLoop = {s with state := state,closing := closing} := by
  unfold forceCloseInLoop
  split
  · exact ⟨_,_,rfl⟩
  · exact ⟨s.state,s.closing,rfl⟩

-- A closure that starts the close or arms a timer holds the connection.
omit [DecidableEq Tid] in
theorem perform_parts (s : ConnRefs Tid) (cb : Closure) : ∃ state closing armed,
    s.perform cb = {s with state := state,closing := closing,armed := armed} ∧ s.armed ≤ armed ∧
      (cb.shares = true ∨ closing = s.closing ∧ armed = s.armed) := by
  cases cb with
  | forceCloseInLoop =>
    obtain ⟨state,closing,same⟩ := forceCloseInLoop_parts s
    exact ⟨state,closing,s.armed,same,Nat.le_refl _,.inl rfl⟩
  | connectDestroyed =>
    simp only [perform]
    split
    · exact ⟨_,_,_,rfl,Nat.le_refl _,.inl rfl⟩
    · exact ⟨s.state,s.closing,s.armed,rfl,Nat.le_refl _,.inl rfl⟩
  | addTimerInLoop => exact ⟨s.state,s.closing,s.armed + 1,rfl,Nat.le_succ _,.inl rfl⟩
  | callback => exact ⟨s.state,s.closing,s.armed,rfl,Nat.le_refl _,.inl rfl⟩
  | sendInLoop | shutdownInLoop | startRead | stopRead =>
    exact ⟨s.state,s.closing,s.armed,rfl,Nat.le_refl _,.inr ⟨rfl,rfl⟩⟩

omit [DecidableEq Tid] in
theorem runFunctor_parts (more : s.next < s.functors.length) : ∃ cb state closing armed,
    s.functors.drop s.next = cb :: s.functors.drop (s.next + 1) ∧ s.armed ≤ armed ∧
      (cb.shares = true ∨ closing = s.closing ∧ armed = s.armed) ∧ s.runFunctor = {s with
        state := state
        closing := closing
        next := s.next + 1
        armed := armed
        executed := s.executed ++ [(cb,s.held)]} := by
  obtain ⟨state,closing,armed,same,grown,holds⟩ := perform_parts
    {s with next := s.next + 1,executed := s.executed ++ [(s.functors[s.next],s.held)]} s.functors[s.next]
  refine ⟨s.functors[s.next],state,closing,armed,List.drop_eq_getElem_cons more,grown,holds,?_⟩
  unfold runFunctor
  rw [List.getElem?_eq_getElem more]
  exact same

omit [DecidableEq Tid] in
theorem runFunctor_held (more : s.next < s.functors.length) (before : s.held = true) : s.runFunctor.held = true := by
  obtain ⟨_,_,_,armed,_,grown,_,same⟩ := runFunctor_parts more
  rw [same]
  refine held_iff.mpr ((held_iff.mp before).imp_right (.imp_right (.imp_right (.imp_left ?_))))
  intro counted
  dsimp only
  omega

-- The thread that is in a member of the connection.
def Label.caller : Label Tid → Option Tid
  | .call t _ | .setState t | .queueInLoop t => some t
  | _ => none

omit [DecidableEq Tid] in
theorem caller_holds (calling : ∀ t, s.places t ≠ .idle → t ∈ s.holders) {label : Label Tid} (able : s.allowed label)
    (mine : label.caller = some t) : t ∈ s.holders := by
  cases label with
  | call other method =>
    cases mine
    exact able.1
  | setState other =>
    cases mine
    exact calling t fun idle => by simp [allowed,idle,Place.isSets] at able
  | queueInLoop other =>
    cases mine
    exact calling t fun idle => by simp [allowed,idle,Place.isQueues] at able
  | _ => cases mine

-- All that it can do in one step.
theorem caller_parts (s : ConnRefs Tid) {label : Label Tid} (mine : label.caller = some t) : ∃ place state pushed,
    s.apply label = {s with
      places := Function.update s.places t place
      state := state
      pendingFunctors := s.pendingFunctors ++ pushed} := by
  have still : s = {s with
      places := Function.update s.places t (s.places t)
      state := s.state
      pendingFunctors := s.pendingFunctors ++ []} := by
    rw [Function.update_eq_self,List.append_nil]
  cases label with
  | call other method =>
    cases mine
    simp only [apply]
    split
    · exact ⟨_,s.state,[],by rw [List.append_nil]; rfl⟩
    · exact ⟨_,_,_,still⟩
  | setState other =>
    cases mine
    simp only [apply]
    split
    · exact ⟨_,_,[],by rw [List.append_nil]; rfl⟩
    · exact ⟨_,_,_,still⟩
  | queueInLoop other =>
    cases mine
    simp only [apply]
    split
    · exact ⟨_,s.state,_,rfl⟩
    · exact ⟨_,_,_,still⟩
  | _ => cases mine

theorem closeCallback_parts (s : ConnRefs Tid) : ∃ listed pendingFunctors removals, s.apply .closeCallback = {s with
    closing := false
    listed := listed
    pendingFunctors := pendingFunctors
    removals := removals} := by
  simp only [apply,removeConnection]
  split
  · exact ⟨_,_,s.removals,rfl⟩
  · exact ⟨s.listed,s.pendingFunctors,_,rfl⟩

theorem expire_parts (s : ConnRefs Tid) : ∃ state closing, s.apply .expire = {s with
    armed := s.armed - 1
    expired := s.expired + 1
    state := state
    closing := closing} :=
  forceCloseInLoop_parts {s with armed := s.armed - 1,expired := s.expired + 1}

-- A step that takes the last TcpConnectionPtr away leaves the closures.
theorem last_waiting (formed : Formed s) (label : Label Tid) (able : s.allowed label)
    (before : s.held = true) (gone : (s.apply label).held = false) : (s.apply label).waiting = s.waiting := by
  have busy : label.caller = none := by
    cases mine : label.caller with
    | none => rfl
    | some t =>
      have holds := caller_holds formed.calling able mine
      obtain ⟨_,_,_,next⟩ := caller_parts s mine
      have none := (unheld gone).holders
      rw [next] at none
      rw [none] at holds
      cases holds
  cases label with
  | call t method | setState t | queueInLoop t => cases busy
  | queueCallback =>
    have kept : (s.push .callback).held = true := push_held s rfl
    cases gone.symm.trans kept
  | closeCallback =>
    simp only [apply,removeConnection] at gone ⊢
    split
    · rename_i own
      rw [if_pos own] at gone
      cases gone.symm.trans (push_held _ rfl)
    · rfl
  | swap =>
    obtain ⟨_,_,empty⟩ := able
    simp [apply,waiting,empty]
  | runFunctor => cases gone.symm.trans (runFunctor_held able.2 before)
  | functorsDone =>
    obtain ⟨_,done⟩ := able
    simp [apply,waiting,done]
  | removeConnectionInLoop => cases gone.symm.trans (push_held _ rfl)
  | expire =>
    obtain ⟨_,_,next⟩ := expire_parts s
    rw [next]
    rfl
  | copy | drop | handleEvent | handleClose | handled | removalDone | reset => rfl

-- A connection that nothing holds: its loop goes on with what is queued.
theorem dead_step (old : Formed s) (label : Label Tid) (able : s.allowed label) (free : s.held = false) :
    (s.apply label).held = false ∧ ((s.apply label).waiting = s.waiting ∧ (s.apply label).executed = s.executed ∨
      ∃ cb, (cb,false) ∈ (s.apply label).executed ∧ s.waiting ≠ []) := by
  have dead := unheld free
  have away : label.caller = none := by
    cases mine : label.caller with
    | none => rfl
    | some t =>
      have holds := caller_holds old.calling able mine
      rw [dead.holders] at holds
      cases holds
  cases label with
  | call t method | setState t | queueInLoop t => cases away
  | copy t => cases free.symm.trans able
  | drop t => rw [allowed,dead.holders] at able; cases able.1
  | handleEvent => cases free.symm.trans able.1
  | queueCallback => cases free.symm.trans able.1
  | handleClose => cases dead.guard.symm.trans able.1
  | handled => cases dead.guard.symm.trans able.1
  | closeCallback =>
    rcases old.closing able with guard | expired | shares
    · cases dead.guard.symm.trans guard
    · rw [dead.counts.2.2.2] at expired
      cases expired
    · cases dead.functors.symm.trans shares
  | swap =>
    obtain ⟨_,_,empty⟩ := able
    refine ⟨?_,.inl ⟨?_,rfl⟩⟩
    · simp [apply,held,dead.listed,dead.holders,dead.guard,dead.counts,dead.pending]
    · simp [apply,waiting,empty]
  | runFunctor =>
    obtain ⟨cb,_,_,armed,first,_,holds,same⟩ := runFunctor_parts able.2
    have inside : cb ∈ s.functors := List.mem_of_mem_drop (first ▸ List.mem_cons_self)
    have bare : ¬cb.shares = true := by
      intro shares
      cases dead.functors.symm.trans (List.any_eq_true.mpr ⟨cb,inside,shares⟩)
    obtain ⟨_,unarmed⟩ := holds.resolve_left bare
    simp only [apply]
    rw [same,unarmed]
    refine ⟨free,.inr ⟨cb,?_,?_⟩⟩
    · rw [free]
      exact List.mem_append_right _ List.mem_cons_self
    · unfold waiting
      rw [first]
      exact List.cons_ne_nil _ _
  | functorsDone =>
    obtain ⟨_,done⟩ := able
    refine ⟨?_,.inl ⟨?_,rfl⟩⟩
    · simp [apply,held,dead.listed,dead.holders,dead.guard,dead.counts,dead.pending]
    · simp [apply,waiting,done]
  | removeConnectionInLoop => rw [allowed,dead.counts.1] at able; cases able
  | removalDone => rw [allowed,dead.counts.2.1] at able; cases able
  | expire => rw [allowed,dead.counts.2.2.1] at able; cases able.1
  | reset => rw [allowed,dead.counts.2.2.2] at able; cases able.1

-- What was held when it ran stays recorded; a step adds what it runs itself.
theorem exists_step (old : Exists s) (label : Label Tid) (able : s.allowed label) (before : s.held = true) :
    Exists (s.apply label) := by
  have same : (s.apply label).executed = s.executed → Exists (s.apply label) := by
    intro same entry found
    rw [same] at found
    exact old entry found
  cases mine : label.caller with
  | some t =>
    obtain ⟨_,_,_,next⟩ := caller_parts s mine
    refine same ?_
    rw [next]
  | none =>
    cases label with
    | call t method | setState t | queueInLoop t => cases mine
    | runFunctor =>
      obtain ⟨cb,_,_,_,_,_,_,ran⟩ := runFunctor_parts able.2
      intro entry found
      simp only [apply] at found
      rw [ran] at found
      rcases List.mem_append.mp found with earlier | now
      · exact old entry earlier
      · rw [List.mem_singleton.mp now]
        exact before
    | closeCallback =>
      obtain ⟨_,_,_,next⟩ := closeCallback_parts s
      refine same ?_
      rw [next]
    | expire =>
      obtain ⟨_,_,next⟩ := expire_parts s
      refine same ?_
      rw [next]
    | copy | drop | handleEvent | queueCallback | handleClose | handled => exact same rfl
    | swap | functorsDone | removeConnectionInLoop | removalDone | reset => exact same rfl

theorem calling_step (calling : ∀ t, s.places t ≠ .idle → t ∈ s.holders) (label : Label Tid) (able : s.allowed label) :
    ∀ t, (s.apply label).places t ≠ .idle → t ∈ (s.apply label).holders := by
  cases mine : label.caller with
  | some t =>
    have holds := caller_holds calling able mine
    obtain ⟨place,_,_,next⟩ := caller_parts s mine
    rw [next]
    intro other busy
    by_cases same : other = t
    · rwa [same]
    · dsimp only at busy
      rw [Function.update_of_ne same] at busy
      exact calling other busy
  | none =>
    cases label with
    | call t method | setState t | queueInLoop t => cases mine
    | copy t => exact fun other busy => List.mem_cons_of_mem _ (calling other busy)
    | drop t =>
      intro other busy
      have apart : other ≠ t := by
        rintro rfl
        exact busy able.2
      exact (List.mem_erase_of_ne apart).mpr (calling other busy)
    | runFunctor =>
      obtain ⟨cb,_,_,_,_,_,_,ran⟩ := runFunctor_parts able.2
      simp only [apply]
      rw [ran]
      exact calling
    | closeCallback =>
      obtain ⟨_,_,_,next⟩ := closeCallback_parts s
      rw [next]
      exact calling
    | expire =>
      obtain ⟨_,_,next⟩ := expire_parts s
      rw [next]
      exact calling
    | handleEvent | queueCallback | handleClose | handled | swap | functorsDone => exact calling
    | removeConnectionInLoop | removalDone | reset => exact calling

theorem formed_step (old : Formed s) (label : Label Tid) (able : s.allowed label) : Formed (s.apply label) := by
  refine ⟨calling_step old.calling label able,?_⟩
  cases mine : label.caller with
  | some t =>
    obtain ⟨_,_,_,next⟩ := caller_parts s mine
    rw [next]
    exact old.closing
  | none =>
    cases label with
    | call t method | setState t | queueInLoop t => cases mine
    | runFunctor =>
      obtain ⟨cb,_,_,_,first,_,holds,ran⟩ := runFunctor_parts able.2
      simp only [apply]
      rw [ran]
      intro closing
      rcases holds with shares | ⟨same,_⟩
      · exact .inr (.inr (List.any_eq_true.mpr ⟨cb,List.mem_of_mem_drop (first ▸ List.mem_cons_self),shares⟩))
      · exact old.closing (same.symm.trans closing)
    | handleClose => exact fun _ => .inl able.1
    | expire =>
      obtain ⟨_,_,next⟩ := expire_parts s
      rw [next]
      exact fun _ => .inr (.inl (Nat.succ_pos _))
    | closeCallback =>
      obtain ⟨_,_,_,next⟩ := closeCallback_parts s
      rw [next]
      exact fun closing => (by cases closing)
    | handleEvent => exact fun _ => .inl rfl
    | handled => exact fun closing => (by cases able.2.symm.trans closing)
    | swap => exact fun closing => (by cases able.2.1.symm.trans closing)
    | functorsDone => exact fun closing => (by cases able.1.symm.trans closing)
    | reset => exact fun closing => (by cases able.2.symm.trans closing)
    | copy | drop | queueCallback | removeConnectionInLoop | removalDone => exact old.closing

theorem kept_step (old : Kept s) (label : Label Tid) (able : s.allowed label) (met : s.Outlives label) :
    Kept (s.apply label) := by
  have formed := formed_step old.formed label able
  cases before : s.held with
  | true =>
    refine ⟨formed,exists_step old.exist label able before,fun gone => ?_⟩
    exact (last_waiting old.formed label able before gone).trans (met before gone)
  | false =>
    have none := old.gone before
    obtain ⟨_,⟨waits,same⟩ | ⟨_,_,some⟩⟩ := dead_step old.formed label able before
    · refine ⟨formed,fun entry found => ?_,fun _ => waits.trans none⟩
      rw [same] at found
      exact old.exist entry found
    · exact absurd none some

theorem missed_doomed (old : Kept s) (label : Label Tid) (able : s.allowed label) (missed : ¬s.Outlives label) :
    Doomed (s.apply label) := by
  obtain ⟨before,last⟩ := Classical.not_imp.mp missed
  obtain ⟨gone,some⟩ := Classical.not_imp.mp last
  refine ⟨formed_step old.formed label able,gone,?_⟩
  rw [last_waiting old.formed label able before gone]
  exact some

theorem doomed_step (old : Doomed s) (label : Label Tid) (able : s.allowed label) :
    Doomed (s.apply label) ∨ ¬Exists (s.apply label) := by
  obtain ⟨free,⟨waits,_⟩ | ⟨cb,ran,_⟩⟩ := dead_step old.formed label able old.free
  · exact .inl ⟨formed_step old.formed label able,free,fun none => old.left (waits.symm.trans none)⟩
  · exact .inr fun exist => (by cases exist _ ran)

omit [DecidableEq Tid] in
theorem new_kept (ownLoop : Bool) : Kept (new ownLoop : ConnRefs Tid) := by
  refine ⟨⟨fun _ busy => absurd rfl busy,fun closing => by cases closing⟩,fun _ found => ?_,fun free => ?_⟩
  · cases found
  · cases free

-- Every closure finds the connection in a run where the last TcpConnectionPtr
-- never goes before the last closure; where all that is queued has run in the
-- end, or something still holds the connection, in no other.
theorem exists_iff_outlives {s final : ConnRefs Tid} (labels : List (Label Tid)) (origin : machine.start s)
    (ran : machine.run s labels = some final) :
    (machine.Meets Outlives s labels → machine.Throughout Exists s labels) ∧
    (final.held = true ∨ final.waiting = [] → (machine.Throughout Exists s labels ↔ machine.Meets Outlives s labels)) := by
  obtain ⟨ownLoop,rfl⟩ := origin
  have sound : ∀ s : ConnRefs Tid, Kept s → Exists s := fun _ old => old.exist
  have kept : ∀ s label after, Kept s → Outlives s label → (machine : Machine (ConnRefs Tid) (Label Tid)).next s label = some after →
      Kept after := by
    intro s label after old met taken
    obtain ⟨able,rfl⟩ := Machine.guarded_parts.mp taken
    exact kept_step old label able met
  refine ⟨Machine.throughout_of_meets sound kept (new_kept ownLoop),fun ended => ?_⟩
  have free : ¬Doomed final := by
    intro doomed
    rcases ended with held | none
    · cases doomed.free.symm.trans held
    · exact doomed.left none
  refine Machine.throughout_iff_meets_of_ends sound kept ?_ ?_ (new_kept ownLoop) ran free
  · intro s label after old missed taken
    obtain ⟨able,rfl⟩ := Machine.guarded_parts.mp taken
    exact .inl (missed_doomed old label able missed)
  · intro s label after fate taken
    obtain ⟨able,rfl⟩ := Machine.guarded_parts.mp taken
    exact doomed_step fate label able

-- A send is queued before connectDestroyed and runs in the same batch.
def sendsBeforeClose : List (Label Nat) :=
  [.handleEvent,.copy 1,.call 1 .send,.queueInLoop 1,.drop 1,.handleClose,.closeCallback,.handled,.swap,.runFunctor,
    .runFunctor,.functorsDone]

theorem exists_for_queued_send : ∃ s, (machine : Machine (ConnRefs Nat) (Label Nat)).run (new true) sendsBeforeClose = some s ∧
    s.executed = [(.sendInLoop,true),(.connectDestroyed,true)] ∧ s.held = false ∧
    (machine : Machine (ConnRefs Nat) (Label Nat)).Throughout Exists (new true) sendsBeforeClose := by
  refine ⟨_,rfl,rfl,rfl,(exists_iff_outlives sendsBeforeClose ⟨true,rfl⟩ rfl).1 ?_⟩
  refine .cons (fun _ gone => (by cases gone)) rfl ?_
  refine .cons (fun _ gone => (by cases gone)) rfl ?_
  refine .cons (fun _ gone => (by cases gone)) rfl ?_
  refine .cons (fun _ gone => (by cases gone)) rfl ?_
  refine .cons (fun _ gone => (by cases gone)) rfl ?_
  refine .cons (fun _ gone => (by cases gone)) rfl ?_
  refine .cons (fun _ gone => (by cases gone)) rfl ?_
  refine .cons (fun _ gone => (by cases gone)) rfl ?_
  refine .cons (fun _ gone => (by cases gone)) rfl ?_
  refine .cons (fun _ gone => (by cases gone)) rfl ?_
  refine .cons (fun _ gone => (by cases gone)) rfl ?_
  exact ⟨fun _ _ => rfl,fun _ _ => trivial⟩

-- The send is posted while connectDestroyed runs, and the thread drops its
-- TcpConnectionPtr: the end of the batch destroys the connection.
theorem send_runs_on_destroyed : ∃ s, (machine : Machine (ConnRefs Nat) (Label Nat)).run (new true)
      [.handleEvent,.copy 1,.call 1 .send,.handleClose,.closeCallback,.handled,.swap,.queueInLoop 1,.drop 1,
        .runFunctor,.functorsDone,.swap,.runFunctor] = some s ∧
    s.executed = [(.connectDestroyed,true),(.sendInLoop,false)] ∧ ¬Exists s := by
  refine ⟨_,rfl,rfl,fun exist => ?_⟩
  cases exist (.sendInLoop,false) (by decide)

end ConnRefs
end NewMuduo
