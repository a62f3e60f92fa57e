import NewMuduo.UringTcpConnection

namespace NewMuduo.UringTcpConnection
variable {c after : UringTcpConnection} {label : Label}

-- state_ and the number of calls of closeCallback_ go together, a closed
-- connection has left connections_ or is about to, and after the handler's
-- return nothing runs that could open the way to another close.
structure Sound (c : UringTcpConnection) : Prop where
  closes : c.closes = if c.state = .KDisconnected then 1 else 0
  entry : c.mapped = true → c.state = .KDisconnected → 0 < c.removals
  ended : c.returned = true → c.running = false ∧ c.op = none ∧ c.state ≠ .KConnected
  live : c.state ≠ .KConnecting
  awaits : c.running = true → c.op = none

-- After the return of the handler the connection is closed, or the functor
-- that closes it is queued.
def Closes (c : UringTcpConnection) : Prop :=
  c.returned = true → c.state = .KDisconnected ∨ .forcecloseInLoop ∈ c.functors

-- The condition: the handler does not return in KDisconnecting, unless
-- forcecloseInLoop is queued.
def ReturnsClosing (c : UringTcpConnection) : Label → Prop
  | .ret => c.state = .KDisconnecting → .forcecloseInLoop ∈ c.functors
  | _ => True

instance : ∀ label : Label, Decidable (ReturnsClosing c label)
  | .ret => inferInstanceAs (Decidable (_ → _))
  | .read _ | .send _ | .completed .. | .suspend | .resume | .shutdown | .forceclose | .functor | .removeConnectionInLoop =>
    .isTrue trivial

theorem handleClose_closed (closed : c.state = .KDisconnected) : c.handleClose = c := if_pos closed

-- What handleClose leaves of an open connection.
theorem handleClose_open (alive : c.state ≠ .KDisconnected) : ∃ mapped removals,
    (mapped = true → 0 < removals) ∧ c.handleClose = {c with
      state := .KDisconnected
      closes := c.closes + 1
      mapped := mapped
      removals := removals
      functors := c.functors ++ [.guard]} := by
  unfold handleClose removeConnection
  rw [if_neg alive]
  dsimp only
  split
  · exact ⟨false,c.removals,fun stays => (by cases stays),rfl⟩
  · exact ⟨c.mapped,c.removals + 1,fun _ => Nat.succ_pos _,rfl⟩

theorem Sound.handleClose (old : Sound c) : Sound c.handleClose := by
  by_cases closed : c.state = .KDisconnected
  · rw [handleClose_closed closed]
    exact old
  · obtain ⟨mapped,removals,entry,same⟩ := handleClose_open closed
    have none : c.closes = 0 := by rw [old.closes,if_neg closed]
    rw [same]
    refine ⟨by simp [none],fun stays _ => entry stays,?_,fun other => (by cases other),old.awaits⟩
    intro returned
    exact ⟨(old.ended returned).1,(old.ended returned).2.1,fun other => (by cases other)⟩

theorem handleClose_closes (c : UringTcpConnection) : c.handleClose.state = .KDisconnected := by
  by_cases closed : c.state = .KDisconnected
  · rw [handleClose_closed closed]
    exact closed
  · obtain ⟨mapped,removals,_,same⟩ := handleClose_open closed
    rw [same]

-- Read and send either go on, give back, or close first.
inductive Turns (c : UringTcpConnection) : UringTcpConnection → Prop where
  | again (op : UringOp) : Turns c {c with op := some op}
  | back (result : Int) : Turns c (c.giveBack result)
  | closed (result : Int) : Turns c (c.handleClose.giveBack result)

theorem readCompleted_turns (here : c.op = some (.read total remain)) (res : Int) (errno : Errno) :
    Turns c (c.readCompleted total remain res errno) := by
  have same : c = {c with op := some (.read total remain)} := by rw [← here]
  unfold readCompleted
  split
  · dsimp only
    split
    · exact .back _
    · exact .again _
  · split
    · exact .closed _
    · split
      · exact same ▸ .again _
      · exact .closed _

theorem sendCompleted_turns (here : c.op = some (.send total remain)) (res : Int) (errno : Errno) :
    Turns c (c.sendCompleted total remain res errno) := by
  have same : c = {c with op := some (.send total remain)} := by rw [← here]
  unfold sendCompleted
  split
  · dsimp only
    split
    · exact .back _
    · exact .again _
  · split
    · exact same ▸ .again _
    · split
      · exact same ▸ .again _
      · exact .closed _

theorem completed_turns (taken : c.next (.completed res errno) = some after) : c.op ≠ none ∧ Turns c after := by
  simp only [next] at taken
  split at taken
  · rename_i here
    split at taken
    · cases taken
      exact ⟨by rw [here]; exact Option.some_ne_none _,readCompleted_turns here res errno⟩
    · cases taken
  · rename_i here
    split at taken
    · cases taken
      exact ⟨by rw [here]; exact Option.some_ne_none _,sendCompleted_turns here res errno⟩
    · cases taken
  · cases taken

theorem Sound.unreturned (old : Sound c) (busy : c.running = true ∨ c.op ≠ none) : c.returned = false := by
  cases returned : c.returned with
  | false => rfl
  | true =>
    obtain ⟨stopped,none,_⟩ := old.ended returned
    rcases busy with runs | waits
    · cases stopped.symm.trans runs
    · exact absurd none waits

-- A step of the handler that leaves the close alone.
theorem Sound.frame (old : Sound c) (running : Bool) (op : Option UringOp) (result : Int) (unreturned : c.returned = false)
    (awaits : running = true → op = none) : Sound {c with running := running,op := op,result := result} :=
  ⟨old.closes,old.entry,fun returned => (by cases unreturned.symm.trans returned),old.live,awaits⟩

theorem handleClose_returned (c : UringTcpConnection) : c.handleClose.returned = c.returned := by
  by_cases closed : c.state = .KDisconnected
  · rw [handleClose_closed closed]
  · obtain ⟨_,_,_,same⟩ := handleClose_open closed
    rw [same]

theorem Sound.turns (old : Sound c) (waits : c.op ≠ none) (turn : Turns c after) : Sound after := by
  have unreturned := old.unreturned (.inr waits)
  cases turn with
  | again op => exact old.frame c.running (some op) c.result unreturned fun runs => absurd (old.awaits runs) waits
  | back result => exact old.frame true none result unreturned fun _ => rfl
  | closed result =>
    exact old.handleClose.frame true none result ((handleClose_returned c).trans unreturned) fun _ => rfl

-- shutdown and forceclose both leave KDisconnecting and one functor more.
theorem Sound.disconnecting (old : Sound c) (alive : c.state ≠ .KDisconnected) (cb : UringFunctor) :
    Sound ({c with state := .KDisconnecting}.queueInLoop cb) := by
  have none : c.closes = 0 := by rw [old.closes,if_neg alive]
  refine ⟨by simp [queueInLoop,none],fun _ closed => (by cases closed),fun returned => ?_,fun other => (by cases other),old.awaits⟩
  exact ⟨(old.ended returned).1,(old.ended returned).2.1,fun other => (by cases other)⟩

theorem Sound.forceclose (old : Sound c) (taken : c.forceclose = some after) : Sound after := by
  unfold UringTcpConnection.forceclose at taken
  split at taken
  · cases taken
    exact old
  · rename_i alive
    split at taken
    · cases taken
      exact old.disconnecting (not_or.mp alive).1 _
    · cases taken

-- What connectionLoop does at its end: nothing in the two states of closing,
-- else it starts the close.
theorem connectionLoopEnds_parts (old : Sound c) (taken : c.connectionLoopEnds = some after) :
    (c.state ≠ .KConnected ∧ after = {c with running := false,returned := true}) ∨
    (c.state = .KConnected ∧
      after = {c with state := .KDisconnecting,running := false,returned := true}.queueInLoop .forcecloseInLoop) := by
  unfold connectionLoopEnds UringTcpConnection.forceclose at taken
  cases here : c.state with
  | KConnecting => exact absurd here old.live
  | KConnected =>
    rw [here] at taken
    cases taken
    exact .inr ⟨rfl,rfl⟩
  | KDisconnecting =>
    rw [here] at taken
    cases taken
    exact .inl ⟨by decide,by rw [← here]⟩
  | KDisconnected =>
    rw [here] at taken
    cases taken
    exact .inl ⟨by decide,by rw [← here]⟩

theorem Sound.connectionLoopEnds (old : Sound c) (runs : c.running = true) (taken : c.connectionLoopEnds = some after) :
    Sound after := by
  rcases connectionLoopEnds_parts old taken with ⟨closing,rfl⟩ | ⟨connected,rfl⟩
  · exact ⟨old.closes,old.entry,fun _ => ⟨rfl,old.awaits runs,closing⟩,old.live,fun other => (by cases other)⟩
  · have none : c.closes = 0 := by rw [old.closes,connected]; rfl
    refine ⟨by simp [queueInLoop,none],fun _ closed => (by cases closed),fun _ => ?_,fun other => (by cases other),
      fun other => (by cases other)⟩
    exact ⟨rfl,old.awaits runs,fun other => (by cases other)⟩

theorem Sound.runFunctor (old : Sound c) (rest : List UringFunctor) (cb : UringFunctor) :
    Sound ({c with functors := rest}.runFunctor cb) := by
  have popped : Sound {c with functors := rest} := ⟨old.closes,old.entry,old.ended,old.live,old.awaits⟩
  cases cb with
  | shutdownInLoop => exact ⟨old.closes,old.entry,old.ended,old.live,old.awaits⟩
  | forcecloseInLoop =>
    have shut : Sound {c with functors := rest,shutdowns := c.shutdowns ++ [.SHUT_RDWR]} :=
      ⟨old.closes,old.entry,old.ended,old.live,old.awaits⟩
    exact shut.handleClose
  | guard => exact popped

-- Each label with what it needs and what it leaves.
inductive Step (c : UringTcpConnection) : Label → UringTcpConnection → Prop where
  | read : c.running = true → Step c (.read len) {c with running := false,op := some (.read len len)}
  | send : c.running = true → Step c (.send len) {c with running := false,op := some (.send len len)}
  | completed : c.op ≠ none → Turns c turned → Step c (.completed res errno) turned
  | suspend : c.running = true → Step c .suspend {c with running := false}
  | resume : c.op = none → c.returned = false → Step c .resume {c with running := true}
  | shutdown : c.running = true → c.state = .KConnected →
      Step c .shutdown ({c with state := .KDisconnecting}.queueInLoop .shutdownInLoop)
  | forceclose : c.running = true → c.forceclose = some forced → Step c .forceclose forced
  | ret : c.running = true → c.connectionLoopEnds = some finished → Step c .ret finished
  | functor : c.functors = cb :: rest → Step c .functor ({c with functors := rest}.runFunctor cb)
  | removeConnectionInLoop : Step c .removeConnectionInLoop {c with removals := c.removals - 1,mapped := false}

theorem next_step (taken : c.next label = some after) : Step c label after := by
  cases label with
  | completed res errno =>
    obtain ⟨waits,turn⟩ := completed_turns taken
    exact .completed waits turn
  | read len =>
    simp only [next] at taken
    split at taken
    · rename_i able
      cases taken
      exact .read able.1
    · cases taken
  | send len =>
    simp only [next] at taken
    split at taken
    · rename_i able
      cases taken
      exact .send able.1
    · cases taken
  | suspend =>
    simp only [next] at taken
    split at taken
    · rename_i runs
      cases taken
      exact .suspend runs
    · cases taken
  | resume =>
    simp only [next] at taken
    split at taken
    · rename_i able
      cases taken
      exact .resume able.2.1 able.2.2
    · cases taken
  | shutdown =>
    simp only [next,UringTcpConnection.shutdown] at taken
    split at taken
    · rename_i runs
      split at taken
      · rename_i connected
        cases taken
        exact .shutdown runs connected
      · cases taken
    · cases taken
  | forceclose =>
    simp only [next] at taken
    split at taken
    · rename_i runs
      exact .forceclose runs taken
    · cases taken
  | ret =>
    simp only [next] at taken
    split at taken
    · rename_i runs
      exact .ret runs taken
    · cases taken
  | functor =>
    simp only [next] at taken
    split at taken
    · rename_i queue
      cases taken
      exact .functor queue
    · cases taken
  | removeConnectionInLoop =>
    simp only [next] at taken
    split at taken
    · cases taken
      exact .removeConnectionInLoop
    · cases taken

theorem Sound.step (old : Sound c) (taken : Step c label after) : Sound after := by
  cases taken with
  | read runs => exact old.frame false _ c.result (old.unreturned (.inl runs)) fun absent => (by cases absent)
  | send runs => exact old.frame false _ c.result (old.unreturned (.inl runs)) fun absent => (by cases absent)
  | completed waits turn => exact old.turns waits turn
  | suspend runs => exact old.frame false c.op c.result (old.unreturned (.inl runs)) fun absent => (by cases absent)
  | resume none unreturned => exact old.frame true c.op c.result unreturned fun _ => none
  | shutdown _ connected => exact old.disconnecting (by rw [connected]; decide) _
  | forceclose _ forced => exact old.forceclose forced
  | ret runs ends => exact old.connectionLoopEnds runs ends
  | functor _ => exact old.runFunctor _ _
  | removeConnectionInLoop => exact ⟨old.closes,fun stays => (by cases stays),old.ended,old.live,old.awaits⟩

-- Before the handler's return the property is empty, and afterwards only
-- functors run.
theorem step_after_return (old : Sound c) (returned : c.returned = true) (taken : Step c label after) :
    (∃ cb rest, c.functors = cb :: rest ∧ after = {c with functors := rest}.runFunctor cb) ∨
    after = {c with removals := c.removals - 1,mapped := false} := by
  obtain ⟨still,none,_⟩ := old.ended returned
  cases taken with
  | functor queue => exact .inl ⟨_,_,queue,rfl⟩
  | removeConnectionInLoop => exact .inr rfl
  | completed waits _ => exact absurd none waits
  | resume _ unreturned => cases unreturned.symm.trans returned
  | read runs => cases still.symm.trans runs
  | send runs => cases still.symm.trans runs
  | suspend runs => cases still.symm.trans runs
  | shutdown runs _ => cases still.symm.trans runs
  | forceclose runs _ => cases still.symm.trans runs
  | ret runs _ => cases still.symm.trans runs

theorem runFunctor_closes (cb : UringFunctor) (rest : List UringFunctor)
    (closes : c.state = .KDisconnected ∨ .forcecloseInLoop ∈ cb :: rest) :
    ({c with functors := rest}.runFunctor cb).state = .KDisconnected ∨
    .forcecloseInLoop ∈ ({c with functors := rest}.runFunctor cb).functors := by
  cases cb with
  | forcecloseInLoop => exact .inl (handleClose_closes _)
  | shutdownInLoop => exact closes.imp_right fun queued => List.mem_of_ne_of_mem (by decide) queued
  | guard => exact closes.imp_right fun queued => List.mem_of_ne_of_mem (by decide) queued

theorem runFunctor_stays (cb : UringFunctor) (rest : List UringFunctor) (stuck : c.state ≠ .KDisconnected)
    (absent : .forcecloseInLoop ∉ cb :: rest) :
    ({c with functors := rest}.runFunctor cb).state ≠ .KDisconnected ∧
    .forcecloseInLoop ∉ ({c with functors := rest}.runFunctor cb).functors := by
  have later : .forcecloseInLoop ∉ rest := fun queued => absent (List.mem_cons_of_mem _ queued)
  cases cb with
  | forcecloseInLoop => exact absurd List.mem_cons_self absent
  | shutdownInLoop => exact ⟨stuck,later⟩
  | guard => exact ⟨stuck,later⟩

theorem forceclose_returned (taken : c.forceclose = some after) : after.returned = c.returned := by
  unfold forceclose at taken
  split at taken
  · cases taken; rfl
  · split at taken
    · cases taken; rfl
    · cases taken

theorem runFunctor_returned (c : UringTcpConnection) (cb : UringFunctor) : (c.runFunctor cb).returned = c.returned := by
  cases cb with
  | forcecloseInLoop => exact handleClose_returned _
  | shutdownInLoop => rfl
  | guard => rfl

theorem Turns.returned (turn : Turns c after) : after.returned = c.returned := by
  cases turn with
  | again op => rfl
  | back result => rfl
  | closed result => exact handleClose_returned c

theorem step_returned (taken : Step c label after) (other : label ≠ .ret) : after.returned = c.returned := by
  cases taken with
  | completed _ turn => exact turn.returned
  | forceclose _ forced => exact forceclose_returned forced
  | functor _ => exact runFunctor_returned _ _
  | ret _ _ => exact absurd rfl other
  | _ => rfl

theorem closes_kept (old : Sound c) (closes : Closes c) (met : ReturnsClosing c label) (taken : Step c label after) :
    Closes after := by
  intro returned
  by_cases before : c.returned = true
  · rcases step_after_return old before taken with ⟨cb,rest,queue,rfl⟩ | rfl
    · exact runFunctor_closes cb rest (queue ▸ closes before)
    · exact closes before
  · have now : label = .ret := by
      by_contra other
      exact before ((step_returned taken other).symm.trans returned)
    subst now
    cases taken with
    | ret _ ends =>
      rcases connectionLoopEnds_parts old ends with ⟨closing,rfl⟩ | ⟨_,rfl⟩
      · cases here : c.state with
        | KConnecting => exact absurd here old.live
        | KConnected => exact absurd here closing
        | KDisconnecting => exact .inr (met here)
        | KDisconnected => exact .inl rfl
      · exact .inr (List.mem_append_right _ List.mem_cons_self)

theorem closes_broken (old : Sound c) (missed : ¬ReturnsClosing c label) (taken : Step c label after) : ¬Closes after := by
  cases taken with
  | ret _ ends =>
    obtain ⟨disconnecting,absent⟩ := Classical.not_imp.mp missed
    rcases connectionLoopEnds_parts old ends with ⟨_,rfl⟩ | ⟨connected,_⟩
    · intro closes
      rcases closes rfl with closed | queued
      · cases disconnecting.symm.trans closed
      · exact absent queued
    · cases disconnecting.symm.trans connected
  | _ => exact absurd trivial missed

-- A connection that is left open stays so.
theorem closes_back (old : Sound c) (taken : Step c label after) (closes : Closes after) : Closes c := by
  intro before
  by_contra stuck
  obtain ⟨state,absent⟩ := not_or.mp stuck
  rcases step_after_return old before taken with ⟨cb,rest,queue,rfl⟩ | rfl
  · obtain ⟨still,gone⟩ := runFunctor_stays cb rest state (queue ▸ absent)
    exact (closes ((runFunctor_returned _ cb).trans before)).elim still gone
  · exact (closes before).elim state absent

theorem start_sound (origin : machine.start c) : Sound c ∧ Closes c := by
  obtain ⟨sameLoop,started⟩ := origin
  cases started
  exact ⟨⟨rfl,fun _ closed => (by cases closed),fun ended => (by cases ended),fun other => (by cases other),fun _ => rfl⟩,
    fun ended => (by cases ended)⟩

theorem settled_closed_iff {final : UringTcpConnection} {labels : List Label} (origin : machine.start c)
    (ran : machine.run c labels = some final) (returned : final.returned = true) (settled : final.functors = []) :
    (final.closes = 1 ∧ final.state = .KDisconnected ∧ (final.removals = 0 → final.mapped = false)) ↔
      machine.Meets ReturnsClosing c labels := by
  obtain ⟨valid,closes⟩ := start_sound origin
  have kept : ∀ s label after, Sound s → machine.next s label = some after → Sound after :=
    fun _ _ _ old taken => old.step (next_step taken)
  have both : ∀ s label after, Sound s ∧ Closes s → ReturnsClosing s label → machine.next s label = some after →
      Sound after ∧ Closes after := fun _ _ _ old met taken => ⟨old.1.step (next_step taken),closes_kept old.1 old.2 met (next_step taken)⟩
  have broken : ∀ s label after, Sound s ∧ Closes s → ¬ReturnsClosing s label → machine.next s label = some after →
      ¬Closes after := fun _ _ _ old missed taken => closes_broken old.1 missed (next_step taken)
  have last := Machine.run_meets (fun s label after old _ taken => kept s label after old taken) valid
    (Machine.meets_labels fun _ _ _ => trivial) ran
  have ends : machine.Throughout Closes c labels ↔ Closes final :=
    Machine.throughout_iff_last kept (fun _ _ _ old taken => closes_back old (next_step taken)) valid ran
  rw [← Machine.throughout_iff_meets (fun _ valid => valid.2) both broken ⟨valid,closes⟩ ran,ends]
  constructor
  · exact fun done _ => .inl done.2.1
  · intro closing
    have closed : final.state = .KDisconnected := by
      rcases closing returned with closed | queued
      · exact closed
      · rw [settled] at queued
        cases queued
    refine ⟨by rw [last.closes,if_pos closed],closed,fun none => ?_⟩
    by_contra stays
    have pending := last.entry (Bool.not_eq_false _ ▸ stays) closed
    omega

theorem echo_then_return_closes : ∃ c final, (construct false).start true = some c ∧
    machine.run c [.read 4,.completed 4 .EPIPE,.send 4,.completed 3 .EPIPE,.completed 1 .EPIPE,.ret,.functor,.functor] = some final ∧
    final.closes = 1 ∧ final.state = .KDisconnected := by
  refine ⟨_,_,rfl,rfl,?_⟩
  have closed := (settled_closed_iff ⟨false,rfl⟩ rfl rfl rfl).mpr
    (show machine.Meets ReturnsClosing _ [.read 4,.completed 4 .EPIPE,.send 4,.completed 3 .EPIPE,.completed 1 .EPIPE,.ret,
      .functor,.functor] by decide)
  exact ⟨closed.1,closed.2.1⟩

-- forceclose() at the end of connectionLoop returns at once in the state that
-- shutdown() has left.
theorem shutdown_then_return_stays_open : ∃ c final, (construct true).start true = some c ∧
    machine.run c [.shutdown,.ret,.functor] = some final ∧ final.returned = true ∧ final.functors = [] ∧
    final.closes = 0 ∧ final.state = .KDisconnecting ∧ final.mapped = true :=
  ⟨_,_,rfl,rfl,rfl,rfl,rfl,rfl,rfl⟩

end NewMuduo.UringTcpConnection
