import NewMuduo.UringDeliveries
import NewMuduo.Simulation
import Mathlib.Data.List.Perm.Basic

namespace NewMuduo.UringPoller
variable {Ctx : Type u} {p q r after : UringPoller Ctx} {label : Label Ctx} {new more : List (Option Ctx)}

-- The request that a step prepares.
def prepared (p : UringPoller Ctx) (label : Label Ctx) (_ : UringPoller Ctx) : List (Option Ctx) :=
  match label with
  | .submit ctx full _ => if (p.prepare (some ctx) full).2 then [some ctx] else []
  | .rearm full _ => if ({p with wakeupPollArmed := false}.prepare none full).2 then [none] else []
  | _ => []

-- The requests that handleCompletions has still to come to.
def outstanding (p : UringPoller Ctx) : List (Option Ctx) :=
  p.sq ++ p.inflight ++ (p.cq.written.drop p.delivered.length).map Cqe.user_data

def context : Delivery Ctx → Option Ctx
  | .wakeup _ => none
  | .resumed _ ctx _ _ => some ctx

-- The completion of the wakeup poll has been read and the next poll not made.
def rearming (p : UringPoller Ctx) : Nat :=
  match p.position with
  | .wakeup _ => 1
  | _ => 0

-- The kernel takes the requests in the order in which they were prepared.
structure Hands (p q : UringPoller Ctx) (new : List (Option Ctx)) : Prop where
  pending : q.pending_sqes = q.sq.length
  taken : ∃ taken, p.sq ++ new = taken ++ q.sq ∧ q.inflight = p.inflight ++ taken

theorem Hands.refl (pending : p.pending_sqes = p.sq.length) : Hands p p [] :=
  ⟨pending,[],List.append_nil _,(List.append_nil _).symm⟩

theorem Hands.trans (first : Hands p q new) (second : Hands q r more) : Hands p r (new ++ more) := by
  obtain ⟨_,earlier,left,flight⟩ := first
  obtain ⟨pending,later,rest,flown⟩ := second
  refine ⟨pending,earlier ++ later,?_,?_⟩
  · rw [← List.append_assoc,left,List.append_assoc,rest,List.append_assoc]
  · rw [flown,flight,List.append_assoc]

theorem submitPendingSqes_hands (pending : p.pending_sqes = p.sq.length) (ret : Option Nat) : Hands p (p.submitPendingSqes ret) [] := by
  unfold submitPendingSqes
  split
  · split
    · exact .refl pending
    · rename_i ret
      refine ⟨?_,p.sq.take ret,?_,rfl⟩
      · dsimp only
        rw [pending,List.length_drop]
      · rw [List.append_nil]
        exact (List.take_append_drop ret p.sq).symm
  · exact .refl pending

theorem submitIfNeeded_hands (pending : p.pending_sqes = p.sq.length) (ret : Option Nat) : Hands p (p.submitIfNeeded ret) [] := by
  unfold submitIfNeeded
  split
  · exact submitPendingSqes_hands pending ret
  · exact .refl pending

theorem prepare_hands (pending : p.pending_sqes = p.sq.length) (user_data : Option Ctx) (full : Option Nat) :
    Hands p (p.prepare user_data full).1 (if (p.prepare user_data full).2 then [user_data] else []) := by
  have room : Hands p (if p.sq.length < p.sqEntries then p else p.submitPendingSqes full) [] := by
    split
    · exact .refl pending
    · exact submitPendingSqes_hands pending full
  unfold prepare
  generalize (if p.sq.length < p.sqEntries then p else p.submitPendingSqes full) = ready at room ⊢
  dsimp only
  split
  · have one : Hands ready {ready with sq := ready.sq ++ [user_data],pending_sqes := ready.pending_sqes + 1} [user_data] := by
      refine ⟨?_,[],rfl,(List.append_nil _).symm⟩
      dsimp only
      rw [room.pending,List.length_append,List.length_singleton]
    exact room.trans one
  · exact room

theorem submit_hands (pending : p.pending_sqes = p.sq.length) (ctx : Ctx) (full ret : Option Nat) :
    Hands p (p.submit ctx full ret) (if (p.prepare (some ctx) full).2 then [some ctx] else []) := by
  have first := prepare_hands pending (some ctx) full
  have both := first.trans (submitIfNeeded_hands first.pending ret)
  rw [List.append_nil] at both
  exact both

theorem registerWakeupPoll_hands (pending : p.pending_sqes = p.sq.length) (full ret : Option Nat) :
    Hands p (p.registerWakeupPoll full ret) (if (p.prepare none full).2 then [none] else []) := by
  have first := prepare_hands pending none full
  unfold registerWakeupPoll
  dsimp only
  split
  · rename_i ready
    rw [if_pos ready] at first
    have armed : Hands p {(p.prepare none full).1 with wakeupPollArmed := true} [none] := ⟨first.pending,first.taken⟩
    have both := armed.trans (submitPendingSqes_hands armed.pending ret)
    rw [List.append_nil] at both
    exact both
  · rename_i full_
    rw [if_neg full_] at first
    exact first

-- Between two states of a run: what was prepared is with the kernel or waits in
-- the ring, and the kernel has it in flight or has completed it.
structure Accounted (p q : UringPoller Ctx) (new : List (Option Ctx)) : Prop where
  pending : q.pending_sqes = q.sq.length
  taken : ∃ taken, p.sq ++ new = taken ++ q.sq ∧
    (p.inflight ++ p.cq.written.map Cqe.user_data ++ taken).Perm (q.inflight ++ q.cq.written.map Cqe.user_data)

theorem Accounted.trans (first : Accounted p q new) (second : Accounted q r more) : Accounted p r (new ++ more) := by
  obtain ⟨_,earlier,left,before⟩ := first
  obtain ⟨pending,later,rest,behind⟩ := second
  refine ⟨pending,earlier ++ later,?_,?_⟩
  · rw [← List.append_assoc,left,List.append_assoc,rest,List.append_assoc]
  · rw [← List.append_assoc]
    exact (before.append_right later).trans behind

theorem Hands.accounted (hands : Hands p q new) (written : q.cq.written = p.cq.written) : Accounted p q new := by
  obtain ⟨pending,taken,left,flight⟩ := hands
  refine ⟨pending,taken,left,?_⟩
  rw [written,flight,List.append_assoc,List.append_assoc]
  exact List.Perm.append_left _ List.perm_append_comm

-- What handleCompletions and the collecting loop leave alone.
def requests (p : UringPoller Ctx) : List (Option Ctx) × List (Option Ctx) × Nat × Bool × List (Cqe Ctx) :=
  (p.sq,p.inflight,p.pending_sqes,p.wakeupPollArmed,p.cq.written)

theorem Accounted.frame (pending : p.pending_sqes = p.sq.length) (same : q.requests = p.requests) : Accounted p q [] := by
  simp only [requests,Prod.mk.injEq] at same
  obtain ⟨sq,inflight,count,_,written⟩ := same
  refine ⟨by rw [sq,count,pending],[],?_,?_⟩
  · rw [sq]
    exact List.append_nil _
  · rw [inflight,written,List.append_nil]

theorem collect_requests (p : UringPoller Ctx) (head count : Nat) : (p.collect head count).requests = p.requests := by
  unfold UringPoller.collect
  split
  · rfl
  · split <;> rfl

theorem collect_frame (p : UringPoller Ctx) (head count : Nat) :
    (p.collect head count).delivered = p.delivered ∧ (p.collect head count).rearming = 0 := by
  unfold UringPoller.collect
  split
  · exact ⟨rfl,rfl⟩
  · split <;> exact ⟨rfl,rfl⟩

theorem load_requests (p : UringPoller Ctx) (slot : Nat) (left : List Nat) : (p.load slot left).requests = p.requests := by
  unfold UringPoller.load
  dsimp only
  split <;> rfl

def Label.quiet : Label Ctx → Bool
  | .wait_cqe _ | .collect | .suspend | .clear => true
  | .submit .. | .poll _ | .load | .deliver | .rearm .. | .post .. => false

theorem quiet_prepared (quiet : label.quiet = true) : p.prepared label q = [] := by
  cases label <;> first | rfl | cases quiet

-- A label either submits, or completes a request, or touches no request.
inductive Turn (p : UringPoller Ctx) : Label Ctx → UringPoller Ctx → Prop where
  | submit : Turn p (.submit ctx full ret) (p.submit ctx full ret)
  | poll : p.position = .idle → Turn p (.poll ret) (p.poll ret)
  | rearm : p.position = .wakeup left → Turn p (.rearm full ret) (p.rearm left full ret)
  | load : p.position = .handling (slot :: left) → Turn p .load (p.load slot left)
  | deliver : p.position = .loaded slot number ctx left → Turn p .deliver (p.deliver slot number ctx left)
  | post : p.inflight[index]? = some user_data → Turn p (.post index res) (p.post index user_data res)
  | quiet {label : Label Ctx} {q : UringPoller Ctx} : label.quiet = true → q.requests = p.requests → q.delivered = p.delivered →
      q.rearming = p.rearming → Turn p label q

theorem next_turn (taken : p.next label = some after) : Turn p label after := by
  cases label with
  | submit ctx full ret =>
    simp only [next] at taken
    split at taken <;> cases taken
    · exact .submit
    · exact .submit
  | poll ret =>
    simp only [next] at taken
    split at taken
    · rename_i here
      cases taken
      exact .poll (by simpa using here)
    · cases taken
  | wait_cqe ok =>
    simp only [next] at taken
    split at taken
    · rename_i here
      cases taken
      have place : p.position = .waiting := by simpa using here
      refine .quiet rfl rfl rfl ?_
      cases ok <;> simp only [rearming,place] <;> rfl
    · cases taken
  | collect =>
    simp only [next] at taken
    split at taken
    · rename_i head count here
      cases taken
      obtain ⟨delivered,rearming⟩ := collect_frame p head count
      refine .quiet rfl (collect_requests p head count) delivered (rearming.trans ?_)
      simp only [UringPoller.rearming,here]
    · cases taken
  | load =>
    simp only [next] at taken
    split at taken
    · rename_i here
      cases taken
      exact .load here
    · cases taken
  | deliver =>
    simp only [next] at taken
    split at taken
    · rename_i here
      cases taken
      exact .deliver here
    · cases taken
  | rearm full ret =>
    simp only [next] at taken
    split at taken
    · rename_i here
      cases taken
      exact .rearm here
    · cases taken
  | suspend =>
    simp only [next] at taken
    split at taken
    · rename_i here
      cases taken
      refine .quiet rfl rfl rfl ?_
      simp only [rearming,here]
    · cases taken
  | clear =>
    simp only [next] at taken
    split at taken
    · rename_i here
      cases taken
      have place : p.position = .handling [] := by simpa using here
      refine .quiet rfl rfl rfl ?_
      simp only [rearming,place]
    · cases taken
  | post index res =>
    simp only [next] at taken
    split at taken
    · rename_i found
      split at taken
      · cases taken
        exact .post found
      · cases taken
    · cases taken

theorem poll_hands (pending : p.pending_sqes = p.sq.length) (ret : Option Nat) : Hands p (p.poll ret) [] := by
  have hands := submitPendingSqes_hands pending ret
  exact ⟨hands.pending,hands.taken⟩

theorem rearm_hands (pending : p.pending_sqes = p.sq.length) (left : List Nat) (full ret : Option Nat) :
    Hands p (p.rearm left full ret) (if ({p with wakeupPollArmed := false}.prepare none full).2 then [none] else []) := by
  have hands := registerWakeupPoll_hands (p := {p with wakeupPollArmed := false}) pending full ret
  exact ⟨hands.pending,hands.taken⟩

theorem poll_frame (p : UringPoller Ctx) (ret : Option Nat) : (p.poll ret).cq = p.cq ∧ (p.poll ret).delivered = p.delivered := by
  have same := submitPendingSqes_polling p ret
  simp only [polling,Prod.mk.injEq] at same
  exact ⟨same.1,same.2.2.2.2⟩

theorem submit_frame (p : UringPoller Ctx) (ctx : Ctx) (full ret : Option Nat) : (p.submit ctx full ret).cq = p.cq ∧
    (p.submit ctx full ret).delivered = p.delivered ∧ (p.submit ctx full ret).rearming = p.rearming := by
  have same := submit_polling p ctx full ret
  simp only [polling,Prod.mk.injEq] at same
  refine ⟨same.1,same.2.2.2.2,?_⟩
  unfold rearming
  rw [same.2.2.2.1]

theorem rearm_frame (p : UringPoller Ctx) (left : List Nat) (full ret : Option Nat) :
    (p.rearm left full ret).cq = p.cq ∧ (p.rearm left full ret).delivered = p.delivered := by
  have same := registerWakeupPoll_polling {p with wakeupPollArmed := false} full ret
  simp only [polling,Prod.mk.injEq] at same
  exact ⟨same.1,same.2.2.2.2⟩

theorem flight_moved (found : p.inflight[index]? = some user_data) : p.inflight.Perm (p.inflight.eraseIdx index ++ [user_data]) := by
  obtain ⟨inside,rfl⟩ := List.getElem?_eq_some_iff.mp found
  exact (List.getElem_cons_eraseIdx_perm inside).symm.trans (List.perm_append_singleton _ _).symm

-- The kernel completes a request: it leaves the flight for the ring.
theorem post_accounted (pending : p.pending_sqes = p.sq.length) (found : p.inflight[index]? = some user_data) (res : Int) :
    Accounted p (p.post index user_data res) [] := by
  refine ⟨pending,[],List.append_nil _,?_⟩
  have completed : (p.post index user_data res).cq.written.map Cqe.user_data = p.cq.written.map Cqe.user_data ++ [user_data] :=
    List.map_append
  change (p.inflight ++ p.cq.written.map Cqe.user_data ++ []).Perm
    (p.inflight.eraseIdx index ++ (p.post index user_data res).cq.written.map Cqe.user_data)
  rw [completed,List.append_nil,← List.append_assoc]
  refine ((flight_moved found).append_right _).trans ?_
  rw [List.append_assoc,List.append_assoc]
  exact List.Perm.append_left _ List.perm_append_comm

theorem post_outstanding (found : p.inflight[index]? = some user_data) (read : p.delivered.length ≤ p.cq.written.length) (res : Int) :
    (p.post index user_data res).outstanding.Perm p.outstanding := by
  have completed : ((p.post index user_data res).cq.written.drop p.delivered.length).map Cqe.user_data =
      (p.cq.written.drop p.delivered.length).map Cqe.user_data ++ [user_data] := by
    have grown : (p.post index user_data res).cq.written.drop p.delivered.length =
        p.cq.written.drop p.delivered.length ++ [⟨p.cq.tail,user_data,res⟩] := List.drop_append_of_le_length read
    rw [grown,List.map_append]
    rfl
  change (p.sq ++ p.inflight.eraseIdx index ++ ((p.post index user_data res).cq.written.drop p.delivered.length).map Cqe.user_data).Perm _
  rw [completed]
  unfold outstanding
  rw [List.append_assoc,List.append_assoc]
  refine List.Perm.append_left _ (List.Perm.trans ?_ ((flight_moved found).symm.append_right _))
  rw [List.append_assoc]
  exact List.Perm.append_left _ List.perm_append_comm

theorem Accounted.step (pending : p.pending_sqes = p.sq.length) (turn : Turn p label after) :
    Accounted p after (p.prepared label after) := by
  cases turn with
  | submit => exact (submit_hands pending _ _ _).accounted (congrArg Ring.written (submit_frame p _ _ _).1)
  | poll => exact (poll_hands pending _).accounted (congrArg Ring.written (poll_frame p _).1)
  | rearm => exact (rearm_hands pending _ _ _).accounted (congrArg Ring.written (rearm_frame p _ _ _).1)
  | load => exact .frame pending (load_requests p _ _)
  | deliver => exact .frame pending rfl
  | post found => exact post_accounted pending found _
  | quiet still same => exact (quiet_prepared still).symm ▸ .frame pending same

theorem Accounted.run {final : UringPoller Ctx} {labels : List (Label Ctx)} (pending : p.pending_sqes = p.sq.length)
    (ran : machine.run p labels = some final) : Accounted p final (machine.trace prepared p labels) := by
  induction labels generalizing p with
  | nil =>
    cases Option.some.inj ran
    exact .frame pending rfl
  | cons label rest ih =>
    obtain ⟨middle,taken,ran⟩ := Machine.run_cons_parts ran
    have first := Accounted.step pending (next_turn taken)
    rw [Machine.trace_cons taken]
    exact first.trans (ih first.pending ran)

theorem Hands.outstanding (hands : Hands p q new) (cq : q.cq = p.cq) (delivered : q.delivered = p.delivered) :
    q.outstanding.countP Option.isNone = p.outstanding.countP Option.isNone + new.countP Option.isNone := by
  obtain ⟨_,taken,left,flight⟩ := hands
  have both := congrArg (List.countP Option.isNone) left
  rw [List.countP_append,List.countP_append] at both
  unfold UringPoller.outstanding
  rw [cq,delivered,flight]
  simp only [List.countP_append]
  omega

theorem submitPendingSqes_armed (p : UringPoller Ctx) (ret : Option Nat) :
    (p.submitPendingSqes ret).wakeupPollArmed = p.wakeupPollArmed := by
  unfold submitPendingSqes
  split
  · split <;> rfl
  · rfl

theorem prepare_armed (p : UringPoller Ctx) (user_data : Option Ctx) (full : Option Nat) :
    (p.prepare user_data full).1.wakeupPollArmed = p.wakeupPollArmed := by
  have room : (if p.sq.length < p.sqEntries then p else p.submitPendingSqes full).wakeupPollArmed = p.wakeupPollArmed := by
    split
    · rfl
    · exact submitPendingSqes_armed p full
  unfold prepare
  generalize (if p.sq.length < p.sqEntries then p else p.submitPendingSqes full) = ready at room ⊢
  dsimp only
  split <;> exact room

theorem submit_armed (p : UringPoller Ctx) (ctx : Ctx) (full ret : Option Nat) :
    (p.submit ctx full ret).wakeupPollArmed = p.wakeupPollArmed := by
  unfold UringPoller.submit submitIfNeeded
  split
  · exact (submitPendingSqes_armed _ ret).trans (prepare_armed p _ full)
  · exact prepare_armed p _ full

theorem registerWakeupPoll_armed (off : p.wakeupPollArmed = false) (full ret : Option Nat) :
    (p.registerWakeupPoll full ret).wakeupPollArmed = (p.prepare none full).2 := by
  unfold registerWakeupPoll
  dsimp only
  split
  · rename_i ready
    rw [submitPendingSqes_armed,ready]
  · rename_i stays
    rw [prepare_armed,off,eq_false_of_ne_true stays]

-- One wakeup poll is with the kernel, or waits at either end, while it is armed.
def Wakes (p : UringPoller Ctx) : Prop := p.outstanding.countP Option.isNone + p.rearming = p.wakeupPollArmed.toNat

theorem outstanding_next (found : p.cq.written[p.delivered.length]? = some cqe) (requests : q.requests = p.requests)
    (delivered : q.delivered = p.delivered ++ [entry]) :
    p.outstanding.countP Option.isNone = q.outstanding.countP Option.isNone + (if cqe.user_data.isNone then 1 else 0) := by
  simp only [UringPoller.requests,Prod.mk.injEq] at requests
  obtain ⟨sq,inflight,_,_,written⟩ := requests
  obtain ⟨inside,rfl⟩ := List.getElem?_eq_some_iff.mp found
  unfold UringPoller.outstanding
  rw [sq,inflight,written,delivered,List.length_append,List.length_singleton,List.drop_eq_getElem_cons inside,List.map_cons]
  simp only [List.countP_append,List.countP_cons]
  omega

theorem Wakes.step (old : Wakes p) (sound : Sound p) (pending : p.pending_sqes = p.sq.length) (met : ReadBeforeReuse p label)
    (turn : Turn p label after) : Wakes after := by
  unfold Wakes at old ⊢
  cases turn with
  | submit =>
    rename_i ctx full ret
    obtain ⟨cq,delivered,rearming⟩ := submit_frame p ctx full ret
    have count := (submit_hands pending ctx full ret).outstanding cq delivered
    have none : List.countP Option.isNone (if (p.prepare (some ctx) full).2 then [some ctx] else []) = 0 := by
      split <;> rfl
    rw [submit_armed,rearming,count,none]
    exact old
  | poll here =>
    rename_i ret
    obtain ⟨cq,delivered⟩ := poll_frame p ret
    have count := (poll_hands pending ret).outstanding cq delivered
    have armed : (p.poll ret).wakeupPollArmed = p.wakeupPollArmed := submitPendingSqes_armed p ret
    have rearming : p.rearming = (p.poll ret).rearming := by simp only [UringPoller.rearming,here,UringPoller.poll]
    rw [count,armed,← rearming]
    exact old
  | rearm here =>
    rename_i left full ret
    obtain ⟨cq,delivered⟩ := rearm_frame p left full ret
    have count := (rearm_hands pending left full ret).outstanding cq delivered
    have armed : (p.rearm left full ret).wakeupPollArmed = ({p with wakeupPollArmed := false}.prepare none full).2 :=
      registerWakeupPoll_armed rfl full ret
    have was : p.rearming = 1 := by simp only [UringPoller.rearming,here]
    have before : p.outstanding.countP Option.isNone = 0 := by
      have most := Bool.toNat_le p.wakeupPollArmed
      omega
    have now : (p.rearm left full ret).rearming = 0 := rfl
    rw [count,armed,before,now]
    cases ({p with wakeupPollArmed := false}.prepare none full).2 <;> rfl
  | load here =>
    rename_i slot left
    obtain ⟨place,within,_⟩ := (sound.handling here).cons
    obtain ⟨cqe,found,read,_⟩ := sound.next_read within met
    rw [← place] at read
    subst read
    have was : p.rearming = 0 := by simp only [UringPoller.rearming,here]
    cases kind : (p.cq.read slot).user_data with
    | none =>
      rw [load_wakeup kind]
      have count := outstanding_next (q := {p with
        position := .wakeup left
        delivered := p.delivered ++ [.wakeup (p.cq.read slot).number]}) found rfl rfl
      rw [kind] at count
      rw [was,count] at old
      exact old
    | some ctx =>
      rw [load_context kind]
      rw [was] at old
      exact old
  | deliver here =>
    rename_i slot number ctx left
    obtain ⟨_,res,posted⟩ := sound.good.loaded slot number ctx left here
    have was : p.rearming = 0 := by simp only [UringPoller.rearming,here]
    have count := outstanding_next (q := p.deliver slot number ctx left) posted rfl rfl
    rw [was,count] at old
    exact old
  | post found =>
    rename_i index user_data res
    have count := (post_outstanding found (Nat.le_trans sound.handled sound.released) res).countP_eq Option.isNone
    rw [count]
    exact old
  | quiet _ same delivered rearming =>
    simp only [requests,Prod.mk.injEq] at same
    obtain ⟨sq,inflight,_,armed,written⟩ := same
    rw [rearming,armed]
    unfold outstanding
    rw [sq,inflight,written,delivered]
    exact old

-- The condition: a wakeup poll that has to be made again finds a place in the
-- submission ring.
def Rearms (p : UringPoller Ctx) : Label Ctx → Prop
  | .rearm full _ => ({p with wakeupPollArmed := false}.prepare none full).2 = true
  | _ => True

theorem armed_kept (armed : p.wakeupPollArmed = true) (met : Rearms p label) (turn : Turn p label after) :
    after.wakeupPollArmed = true := by
  cases turn with
  | submit => exact (submit_armed p _ _ _).trans armed
  | poll => exact (submitPendingSqes_armed p _).trans armed
  | rearm => exact (registerWakeupPoll_armed rfl _ _).trans met
  | load =>
    have same := load_requests p
    simp only [requests,Prod.mk.injEq] at same
    exact (same _ _).2.2.2.1.trans armed
  | deliver => exact armed
  | post => exact armed
  | quiet _ same =>
    simp only [requests,Prod.mk.injEq] at same
    exact same.2.2.2.1.trans armed

theorem armed_lost (missed : ¬Rearms p label) (turn : Turn p label after) : ¬after.wakeupPollArmed = true := by
  cases turn with
  | rearm => exact fun armed => missed ((registerWakeupPoll_armed rfl _ _).symm.trans armed)
  | quiet still =>
    cases label with
    | rearm => cases still
    | _ => exact absurd trivial missed
  | _ => exact absurd trivial missed

theorem initUring_requests (sqEntries entries : Nat) (cqes : Nat → Cqe Ctx) (nonempty : 0 < entries) (full ret : Option Nat) :
    (initUring sqEntries entries cqes nonempty full ret).pending_sqes = (initUring sqEntries entries cqes nonempty full ret).sq.length ∧
    Wakes (initUring sqEntries entries cqes nonempty full ret) := by
  let empty : UringPoller Ctx := ⟨sqEntries,[],[],.new entries cqes nonempty,0,false,0,[],.idle,[]⟩
  have hands := registerWakeupPoll_hands (p := empty) rfl full ret
  have armed := registerWakeupPoll_armed (p := empty) rfl full ret
  have same := registerWakeupPoll_polling empty full ret
  simp only [polling,Prod.mk.injEq] at same
  have count := hands.outstanding same.1 same.2.2.2.2
  have idle : (empty.registerWakeupPoll full ret).rearming = 0 := by
    unfold rearming
    rw [same.2.2.2.1]
  refine ⟨hands.pending,?_⟩
  change (empty.registerWakeupPoll full ret).outstanding.countP _ + (empty.registerWakeupPoll full ret).rearming =
    (empty.registerWakeupPoll full ret).wakeupPollArmed.toNat
  rw [count,armed,idle]
  cases (empty.prepare none full).2 <;> rfl

theorem delivery_context (cqe : Cqe Ctx) : context cqe.delivery = cqe.user_data := by
  obtain ⟨number,user_data,res⟩ := cqe
  cases user_data <;> rfl

-- What has been delivered and what has not are all completions.
theorem Sound.completions (sound : Sound p) : p.cq.written.map Cqe.user_data =
    p.delivered.map context ++ (p.cq.written.drop p.delivered.length).map Cqe.user_data := by
  have given := sound.good.delivered
  have contexts : p.delivered.map context = (p.cq.written.take p.delivered.length).map Cqe.user_data := by
    rw [given,List.map_map,List.length_map,List.length_take]
    have shorter : min p.delivered.length p.cq.written.length = p.delivered.length :=
      Nat.min_eq_left (Nat.le_trans sound.handled sound.released)
    rw [shorter]
    exact List.map_congr_left fun cqe _ => delivery_context cqe
  rw [contexts,← List.map_append,List.take_append_drop]

-- Every request is at one place at a time, from the submission ring to the
-- coroutine that waits for it, and there is one wakeup poll.
theorem requests_accounted {final : UringPoller Ctx} {labels : List (Label Ctx)} (origin : machine.start p)
    (ran : machine.run p labels = some final) (met : machine.Meets ReadBeforeReuse p labels) :
    final.pending_sqes = final.sq.length ∧
    (∃ taken, p.sq ++ machine.trace prepared p labels = taken ++ final.sq ∧
      (p.inflight ++ taken).Perm (final.inflight ++ (final.cq.written.drop final.delivered.length).map Cqe.user_data ++
        final.delivered.map context)) ∧
    final.outstanding.countP Option.isNone + final.rearming = final.wakeupPollArmed.toNat ∧
    (p.wakeupPollArmed = true →
      (machine.Throughout (fun p => p.wakeupPollArmed = true) p labels ↔ machine.Meets Rearms p labels)) := by
  have sound := start_sound origin
  have empty : p.cq.written = [] := by
    obtain ⟨sqEntries,entries,cqes,nonempty,full,ret,rfl⟩ := origin
    have same := registerWakeupPoll_polling ⟨sqEntries,[],[],.new entries cqes nonempty,0,false,0,[],.idle,[]⟩ full ret
    simp only [polling,Prod.mk.injEq] at same
    exact congrArg Ring.written same.1
  have begun : p.pending_sqes = p.sq.length ∧ Wakes p := by
    obtain ⟨sqEntries,entries,cqes,nonempty,full,ret,rfl⟩ := origin
    exact initUring_requests sqEntries entries cqes nonempty full ret
  have kept : ∀ (s : UringPoller Ctx) label after, Sound s ∧ s.pending_sqes = s.sq.length ∧ Wakes s → ReadBeforeReuse s label →
      machine.next s label = some after → Sound after ∧ after.pending_sqes = after.sq.length ∧ Wakes after := by
    intro s label after old met taken
    have turn := next_turn taken
    exact ⟨old.1.step met taken,(Accounted.step old.2.1 turn).pending,old.2.2.step old.1 old.2.1 met turn⟩
  obtain ⟨last,pending,wakes⟩ := Machine.run_meets kept ⟨sound,begun⟩ met ran
  refine ⟨pending,?_,wakes,fun armed => ?_⟩
  · obtain ⟨taken,left,passed⟩ := (Accounted.run begun.1 ran).taken
    refine ⟨taken,left,?_⟩
    rw [empty,List.map_nil,List.append_nil,last.completions] at passed
    refine passed.trans ?_
    rw [List.append_assoc]
    exact List.Perm.append_left _ List.perm_append_comm
  · have stays : ∀ (s : UringPoller Ctx) label after, s.wakeupPollArmed = true → ReadBeforeReuse s label → Rearms s label →
        machine.next s label = some after → after.wakeupPollArmed = true :=
      fun _ _ _ armed _ met taken => armed_kept armed met (next_turn taken)
    have goes : ∀ (s : UringPoller Ctx) label after, s.wakeupPollArmed = true → ReadBeforeReuse s label → ¬Rearms s label →
        machine.next s label = some after → ¬after.wakeupPollArmed = true :=
      fun _ _ _ _ _ missed taken => armed_lost missed (next_turn taken)
    exact Machine.throughout_iff_meets_given (fun _ armed => armed) stays goes armed ran met

-- Two reads and the wakeup poll, which is still with the kernel.
theorem two_reads_accounted : ∃ final, machine.run smallRing twoReads = some final ∧
    (∃ taken, smallRing.sq ++ machine.trace prepared smallRing twoReads = taken ++ final.sq ∧
      (smallRing.inflight ++ taken).Perm
        (final.inflight ++ (final.cq.written.drop final.delivered.length).map Cqe.user_data ++ final.delivered.map context)) ∧
    final.outstanding.countP Option.isNone + final.rearming = final.wakeupPollArmed.toNat ∧
    machine.Throughout (fun p => p.wakeupPollArmed = true) smallRing twoReads ∧
    machine.trace prepared smallRing twoReads = [some 7,some 8] := by
  have ran : (machine.run smallRing twoReads).isSome = true := by decide +kernel
  obtain ⟨final,ran⟩ := Option.isSome_iff_exists.mp ran
  obtain ⟨_,passed,wakes,armed⟩ := requests_accounted smallRing_start ran (by decide +kernel)
  refine ⟨final,ran,passed,wakes,(armed rfl).mpr ?_,by decide +kernel⟩
  refine Machine.meets_labels fun label member s => ?_
  cases label with
  | rearm => simp [twoReads] at member
  | _ => exact trivial

end NewMuduo.UringPoller
