import NewMuduo.UringRefs

namespace NewMuduo.UringRefs
variable {s after : UringRefs} {conn later : UringTcpConnection} {label : Label}

-- While the connection is open connections_ has it and no guard has been made;
-- afterwards a guard is behind every functor that uses the connection.
structure Owned (s : UringRefs) : Prop where
  sound : s.conn.Sound
  listed : s.conn.state ≠ .KDisconnected → s.conn.mapped = true ∧ s.conn.removals = 0
  unguarded : s.conn.state ≠ .KDisconnected → .guard ∉ s.conn.functors
  behind : s.conn.state = .KDisconnected → ∀ front cb, s.conn.functors = front ++ [cb] → cb = .guard
  counted : s.destroyed = if s.refs = 0 then 1 else 0
  idle : s.round = none → s.ran = []

-- The condition: when the handler returns from a closed connection, its round
-- with the guard or the removal on the server's loop is not over.
def ReturnsInTime (s : UringRefs) : Label → Prop
  | .ret => s.conn.state = .KDisconnected → 0 < s.conn.removals + s.bound ∨ .guard ∈ s.conn.functors ++ s.ran
  | _ => True

instance : ∀ label : Label, Decidable (ReturnsInTime s label)
  | .ret => inferInstanceAs (Decidable (_ → _))
  | .handler _ | .swap | .functor | .roundEnds | .removeConnectionInLoop | .removalEnds => .isTrue trivial

-- What a step of the connection can do to state_, the queue and connections_.
inductive Moves (c : UringTcpConnection) (state : UringState) (functors : List UringFunctor) (mapped : Bool) (removals : Nat) : Prop where
  | same : state = c.state → functors = c.functors → mapped = c.mapped → removals = c.removals → Moves c state functors mapped removals
  | queued (cb : UringFunctor) : cb ≠ .guard → c.state = .KConnected → state = .KDisconnecting → functors = c.functors ++ [cb] →
      mapped = c.mapped → removals = c.removals → Moves c state functors mapped removals
  | closed : c.state ≠ .KDisconnected → state = .KDisconnected → functors = c.functors ++ [.guard] → Moves c state functors mapped removals

def Moved (c after : UringTcpConnection) : Prop := Moves c after.state after.functors after.mapped after.removals

theorem forceclose_moved (sound : conn.Sound) (taken : conn.forceclose = some later) : Moved conn later := by
  unfold UringTcpConnection.forceclose at taken
  split at taken
  · cases taken
    exact .same rfl rfl rfl rfl
  · rename_i alive
    obtain ⟨first,second⟩ := not_or.mp alive
    split at taken
    · rename_i connected
      cases taken
      exact .queued .forcecloseInLoop (by decide) (connected.resolve_right sound.live) rfl rfl rfl rfl
    · cases taken

theorem handleClose_moved (alive : conn.state ≠ .KDisconnected) : Moved conn conn.handleClose := by
  obtain ⟨_,_,_,same⟩ := UringTcpConnection.handleClose_open alive
  rw [same]
  exact .closed alive rfl rfl

theorem handleClose_guards (alive : conn.state ≠ .KDisconnected) : .guard ∈ conn.handleClose.functors := by
  obtain ⟨_,_,_,same⟩ := UringTcpConnection.handleClose_open alive
  rw [same]
  exact List.mem_append_right _ List.mem_cons_self

theorem turns_moved (turn : UringTcpConnection.Turns conn later) : Moved conn later := by
  cases turn with
  | again op => exact .same rfl rfl rfl rfl
  | back result => exact .same rfl rfl rfl rfl
  | closed result =>
    by_cases closed : conn.state = .KDisconnected
    · rw [UringTcpConnection.handleClose_closed closed]
      exact .same rfl rfl rfl rfl
    · exact handleClose_moved closed

-- The steps of the handler, which has not returned.
theorem handler_moved {label : UringTcpConnection.Label} (sound : conn.Sound) (admitted : s.admits label = true)
    (taken : conn.next label = some later) : Moved conn later ∧ conn.returned = false ∧ later.returned = false := by
  have step := UringTcpConnection.next_step taken
  have other : label ≠ .ret := by
    rintro rfl
    cases admitted
  have still := UringTcpConnection.step_returned step other
  have unreturned : conn.returned = false := by
    cases step with
    | read runs | send runs | suspend runs => exact sound.unreturned (.inl runs)
    | completed waits _ => exact sound.unreturned (.inr waits)
    | resume _ unreturned => exact unreturned
    | shutdown runs _ => exact sound.unreturned (.inl runs)
    | forceclose runs _ => exact sound.unreturned (.inl runs)
    | ret | functor | removeConnectionInLoop => cases admitted
  refine ⟨?_,unreturned,still.trans unreturned⟩
  cases step with
  | read | send | suspend | resume => exact .same rfl rfl rfl rfl
  | completed _ turn => exact turns_moved turn
  | shutdown _ connected => exact .queued .shutdownInLoop (by decide) connected rfl rfl rfl rfl
  | forceclose _ forced => exact forceclose_moved sound forced
  | ret | functor | removeConnectionInLoop => cases admitted

theorem refs_pos_of_unreturned (unreturned : s.conn.returned = false) : 0 < s.refs := by
  unfold refs
  rw [unreturned]
  exact Nat.succ_pos _

theorem refs_pos_of_guard (here : .guard ∈ s.conn.functors) : 0 < s.refs := by
  have count := List.count_pos_iff.mpr here
  unfold refs
  omega

theorem refs_pos_of_mapped (here : s.conn.mapped = true) : 0 < s.refs := by
  unfold refs
  rw [here,Bool.toNat_true]
  omega

theorem Owned.alive (old : Owned s) (held : 0 < s.refs) : s.destroyed = 0 := by
  rw [old.counted,if_neg (Nat.pos_iff_ne_zero.mp held)]

-- Whatever is queued finds the connection there.
theorem Owned.held (old : Owned s) (waiting : s.conn.functors ≠ []) : 0 < s.refs := by
  by_cases closed : s.conn.state = .KDisconnected
  · have parts : s.conn.functors.dropLast ++ [s.conn.functors.getLast waiting] = s.conn.functors := List.dropLast_append_getLast waiting
    have guard := old.behind closed _ _ parts.symm
    refine refs_pos_of_guard ?_
    rw [← guard]
    exact List.getLast_mem waiting
  · exact refs_pos_of_mapped (old.listed closed).1

theorem Owned.moves (old : Owned s) (sound : later.Sound) (move : Moved s.conn later) (held : 0 < s.refs)
    (still : 0 < refs {s with conn := later}) : Owned {s with conn := later} := by
  have counted : s.destroyed = if refs {s with conn := later} = 0 then 1 else 0 :=
    (old.alive held).trans (if_neg (Nat.pos_iff_ne_zero.mp still)).symm
  cases move with
  | same state functors mapped removals =>
    refine ⟨sound,?_,?_,?_,counted,old.idle⟩
    · dsimp only
      rw [state,mapped,removals]
      exact old.listed
    · dsimp only
      rw [state,functors]
      exact old.unguarded
    · dsimp only
      rw [state,functors]
      exact old.behind
  | queued cb other connected state functors mapped removals =>
    have alive : s.conn.state ≠ .KDisconnected := by
      rw [connected]
      decide
    refine ⟨sound,?_,?_,?_,counted,old.idle⟩
    · dsimp only
      rw [mapped,removals]
      exact fun _ => old.listed alive
    · dsimp only
      rw [functors]
      intro _ here
      rcases List.mem_append.mp here with here | here
      · exact old.unguarded alive here
      · exact other (List.mem_singleton.mp here).symm
    · dsimp only
      rw [state]
      exact fun closed => by cases closed
  | closed alive state functors =>
    refine ⟨sound,fun open_ => absurd state open_,fun open_ => absurd state open_,?_,counted,old.idle⟩
    dsimp only
    rw [functors]
    intro _ front cb same
    exact (List.singleton_inj.mp (List.append_inj_right' same rfl)).symm

-- The functor that doPendingFunctors runs leaves the queue for ran.
theorem Owned.popped (old : Owned s) (queue : s.conn.functors = cb :: rest) (left : Nat) (shutdowns : List ShutHow) :
    Owned {s with
      conn := {s.conn with functors := rest,shutdowns := shutdowns}
      round := some left
      ran := s.ran ++ [cb]} := by
  have same : refs {s with
      conn := {s.conn with functors := rest,shutdowns := shutdowns}
      round := some left
      ran := s.ran ++ [cb]} = s.refs := by
    simp only [refs,queue,List.count_cons,List.count_append,List.count_nil]
    omega
  have sound : UringTcpConnection.Sound {s.conn with functors := rest,shutdowns := shutdowns} :=
    ⟨old.sound.closes,old.sound.entry,old.sound.ended,old.sound.live,old.sound.awaits⟩
  refine ⟨sound,old.listed,fun alive here => ?_,fun closed front last equal => ?_,old.counted.trans (by rw [same]),fun none => ?_⟩
  · refine old.unguarded alive ?_
    rw [queue]
    exact List.mem_cons_of_mem _ here
  · dsimp only at equal
    refine old.behind closed (cb :: front) last ?_
    rw [queue,equal,List.cons_append]
  · cases none

theorem Owned.functor (old : Owned s) (queue : s.conn.functors = cb :: rest) (left : Nat) :
    Owned {s with conn := {s.conn with functors := rest}.runFunctor cb,round := some left,ran := s.ran ++ [cb]} := by
  cases cb with
  | shutdownInLoop => exact old.popped queue left _
  | guard => exact old.popped queue left _
  | forcecloseInLoop =>
    have popped := old.popped queue left (s.conn.shutdowns ++ [.SHUT_RDWR])
    by_cases closed : s.conn.state = .KDisconnected
    · have same := UringTcpConnection.handleClose_closed
        (c := {s.conn with functors := rest,shutdowns := s.conn.shutdowns ++ [.SHUT_RDWR]}) closed
      unfold UringTcpConnection.runFunctor
      dsimp only
      rw [same]
      exact popped
    · exact popped.moves popped.sound.handleClose (handleClose_moved closed) (refs_pos_of_mapped (old.listed closed).1)
        (refs_pos_of_guard (handleClose_guards closed))

-- Closures with a shared_ptr go, and nothing else changes.
theorem Owned.drops (old : Owned s) (conn : after.conn = s.conn) (destroyed : after.destroyed = s.destroyed)
    (fewer : after.refs ≤ s.refs) (idle : after.round = none → after.ran = []) : Owned (s.drops after) := by
  have counts : ∀ n, n = (if after.refs = 0 then 1 else 0) → Owned {after with destroyed := n} := by
    intro n counted
    refine ⟨?_,?_,?_,?_,counted,idle⟩ <;> dsimp only <;> rw [conn]
    · exact old.sound
    · exact old.listed
    · exact old.unguarded
    · exact old.behind
  unfold UringRefs.drops
  split
  · rename_i last
    refine counts _ ?_
    rw [if_pos last.2,destroyed,old.alive last.1]
  · rename_i stays
    refine counts after.destroyed ?_
    rw [destroyed,old.counted]
    by_cases gone : after.refs = 0
    · have before : s.refs = 0 := Nat.eq_zero_of_not_pos fun held => stays ⟨held,gone⟩
      rw [if_pos gone,if_pos before]
    · have held : ¬s.refs = 0 := by omega
      rw [if_neg gone,if_neg held]

-- The state between the end of the co_await and the end of connectionLoop.
def awaited (s : UringRefs) : UringRefs := {s with conn := {s.conn with running := false,returned := true}}

-- The return either is in time, and the connection goes on to its end, or has
-- destroyed it.
theorem ret_parts (runs : s.conn.running = true) (taken : s.ret = some after) :
    (s.awaited.refs = 0 ∧ after = {s.awaited with destroyed := s.destroyed + 1,inside := true}) ∨
    (0 < s.awaited.refs ∧ ∃ later, s.conn.connectionLoopEnds = some later ∧ after = {s with conn := later}) := by
  unfold ret at taken
  dsimp only at taken
  split at taken
  · rename_i gone
    cases taken
    exact .inl ⟨gone,rfl⟩
  · rename_i held
    obtain ⟨later,ends,same⟩ := Option.map_eq_some_iff.mp taken
    simp only [UringTcpConnection.next,runs,if_true] at ends
    exact .inr ⟨Nat.pos_of_ne_zero held,later,ends,same.symm⟩

theorem Owned.ret (old : Owned s) (runs : s.conn.running = true) (taken : s.ret = some after) : Owned after := by
  have before : 0 < s.refs := refs_pos_of_unreturned (old.sound.unreturned (.inl runs))
  rcases ret_parts runs taken with ⟨gone,rfl⟩ | ⟨held,later,ends,rfl⟩
  · have closed : s.conn.state = .KDisconnected := by
      by_contra alive
      have mapped := refs_pos_of_mapped (s := s.awaited) (old.listed alive).1
      omega
    have ended : UringTcpConnection.Sound s.awaited.conn := by
      refine ⟨old.sound.closes,old.sound.entry,fun _ => ⟨rfl,old.sound.awaits runs,?_⟩,old.sound.live,fun other => (by cases other)⟩
      change s.conn.state ≠ _
      rw [closed]
      decide
    have counted : s.destroyed + 1 = if s.awaited.refs = 0 then 1 else 0 := by rw [old.alive before,if_pos gone]
    exact ⟨ended,old.listed,old.unguarded,old.behind,counted,old.idle⟩
  · have sound := old.sound.connectionLoopEnds runs ends
    rcases UringTcpConnection.connectionLoopEnds_parts old.sound ends with ⟨_,rfl⟩ | ⟨connected,rfl⟩
    · exact old.moves sound (.same rfl rfl rfl rfl) before held
    · have alive : s.conn.state ≠ .KDisconnected := by
        rw [connected]
        decide
      exact old.moves sound (.queued .forcecloseInLoop (by decide) connected rfl rfl rfl rfl) before
        (refs_pos_of_mapped (old.listed alive).1)

theorem Owned.removed (old : Owned s) (pending : 0 < s.conn.removals) :
    Owned {s with conn := {s.conn with removals := s.conn.removals - 1,mapped := false},bound := s.bound + 1} := by
  have before : 0 < s.refs := by
    unfold refs
    omega
  have closed : s.conn.state = .KDisconnected := by
    by_contra alive
    have none := (old.listed alive).2
    omega
  refine ⟨⟨old.sound.closes,fun stays => (by cases stays),old.sound.ended,old.sound.live,old.sound.awaits⟩,
    fun alive => absurd closed alive,old.unguarded,old.behind,?_,old.idle⟩
  have held : 0 < refs {s with conn := {s.conn with removals := s.conn.removals - 1,mapped := false},bound := s.bound + 1} := by
    unfold refs
    dsimp only
    omega
  exact (old.alive before).trans (if_neg (Nat.pos_iff_ne_zero.mp held)).symm

theorem Owned.step (old : Owned s) (taken : s.next label = some after) : Owned after := by
  cases label with
  | handler label =>
    simp only [next] at taken
    split at taken
    · rename_i able
      obtain ⟨later,moved,rfl⟩ := Option.map_eq_some_iff.mp taken
      simp only [Bool.and_eq_true] at able
      obtain ⟨move,unreturned,still⟩ := handler_moved old.sound able.2 moved
      exact old.moves (old.sound.step (UringTcpConnection.next_step moved)) move (refs_pos_of_unreturned unreturned)
        (refs_pos_of_unreturned still)
    · cases taken
  | ret =>
    simp only [next] at taken
    split at taken
    · rename_i able
      simp only [Bool.and_eq_true] at able
      exact old.ret able.2 taken
    · cases taken
  | swap =>
    simp only [next] at taken
    split at taken
    · cases taken
      exact ⟨old.sound,old.listed,old.unguarded,old.behind,old.counted,fun none => by cases none⟩
    · cases taken
  | functor =>
    simp only [next] at taken
    split at taken
    · rename_i left cb rest _ _ queue
      obtain ⟨later,moved,rfl⟩ := Option.map_eq_some_iff.mp taken
      cases UringTcpConnection.next_step moved with
      | functor same =>
        rw [queue] at same
        cases same
        exact old.functor queue left
    · cases taken
  | roundEnds =>
    simp only [next] at taken
    split at taken
    · cases taken
      refine old.drops rfl rfl ?_ fun _ => rfl
      unfold refs
      simp only [List.count_nil]
      omega
    · cases taken
  | removeConnectionInLoop =>
    simp only [next] at taken
    split at taken
    · cases taken
    · obtain ⟨later,moved,rfl⟩ := Option.map_eq_some_iff.mp taken
      simp only [UringTcpConnection.next] at moved
      split at moved
      · rename_i pending
        cases moved
        exact old.removed pending
      · cases moved
  | removalEnds =>
    simp only [next] at taken
    split at taken
    · cases taken
      refine old.drops rfl rfl ?_ old.idle
      unfold refs
      dsimp only
      omega
    · cases taken

theorem started_owned (origin : machine.start s) : Owned s := by
  obtain ⟨conn,started,rfl⟩ := origin
  obtain ⟨sound,_⟩ := UringTcpConnection.start_sound started
  obtain ⟨sameLoop,same⟩ := started
  cases same
  refine ⟨sound,fun _ => ⟨rfl,rfl⟩,fun _ here => (by cases here),fun closed => (by cases closed),?_,fun _ => rfl⟩
  exact (if_neg (Nat.pos_iff_ne_zero.mp (refs_pos_of_unreturned rfl))).symm

theorem inside_same (taken : s.next label = some after) (other : label ≠ .ret) : after.inside = s.inside := by
  have drops : ∀ later : UringRefs, later.inside = s.inside → (s.drops later).inside = s.inside := by
    intro later same
    unfold UringRefs.drops
    split <;> exact same
  cases label with
  | ret => exact absurd rfl other
  | handler label =>
    simp only [next] at taken
    split at taken
    · obtain ⟨_,_,rfl⟩ := Option.map_eq_some_iff.mp taken
      rfl
    · cases taken
  | swap =>
    simp only [next] at taken
    split at taken
    · cases taken
      rfl
    · cases taken
  | functor =>
    simp only [next] at taken
    split at taken
    · obtain ⟨_,_,rfl⟩ := Option.map_eq_some_iff.mp taken
      rfl
    · cases taken
  | roundEnds =>
    simp only [next] at taken
    split at taken
    · cases taken
      exact drops _ rfl
    · cases taken
  | removeConnectionInLoop =>
    simp only [next] at taken
    split at taken
    · cases taken
    · obtain ⟨_,_,rfl⟩ := Option.map_eq_some_iff.mp taken
      rfl
  | removalEnds =>
    simp only [next] at taken
    split at taken
    · cases taken
      exact drops _ rfl
    · cases taken

theorem ret_taken (taken : s.next .ret = some after) : s.inside = false ∧ s.conn.running = true ∧ s.ret = some after := by
  simp only [next] at taken
  split at taken
  · rename_i able
    simp only [Bool.and_eq_true,Bool.not_eq_true'] at able
    exact ⟨able.1,able.2,taken⟩
  · cases taken

theorem in_time_iff (old : Owned s) : ReturnsInTime s .ret ↔ 0 < s.awaited.refs := by
  have parts : s.awaited.refs = s.conn.mapped.toNat + (s.conn.removals + s.bound) + (s.conn.functors ++ s.ran).count .guard := by
    rw [List.count_append]
    unfold refs awaited
    simp only [Bool.not_true,Bool.toNat_false]
    omega
  rw [parts]
  constructor
  · intro met
    by_cases closed : s.conn.state = .KDisconnected
    · rcases met closed with removal | guard
      · omega
      · have count := List.count_pos_iff.mpr guard
        omega
    · rw [(old.listed closed).1,Bool.toNat_true]
      omega
  · intro held closed
    by_contra gone
    obtain ⟨removal,guard⟩ := not_or.mp gone
    have count : (s.conn.functors ++ s.ran).count .guard = 0 := List.count_eq_zero.mpr guard
    cases mapped : s.conn.mapped with
    | false =>
      rw [mapped,Bool.toNat_false] at held
      omega
    | true =>
      have pending := old.sound.entry mapped closed
      omega

theorem inside_kept (old : Owned s) (outside : s.inside = false) (met : ReturnsInTime s label) (taken : s.next label = some after) :
    after.inside = false := by
  by_cases last : label = .ret
  · subst last
    obtain ⟨_,runs,ends⟩ := ret_taken taken
    have held := (in_time_iff old).mp met
    rcases ret_parts runs ends with ⟨gone,_⟩ | ⟨_,_,_,rfl⟩
    · omega
    · exact outside
  · exact (inside_same taken last).trans outside

theorem inside_broken (old : Owned s) (missed : ¬ReturnsInTime s label) (taken : s.next label = some after) :
    after.inside = true := by
  cases label with
  | ret =>
    obtain ⟨_,runs,ends⟩ := ret_taken taken
    rcases ret_parts runs ends with ⟨_,rfl⟩ | ⟨held,_⟩
    · rfl
    · exact absurd ((in_time_iff old).mpr held) missed
  | _ => exact absurd trivial missed

-- ~UringTcpConnection has run once when nothing holds the connection, and then
-- no functor is left that would use it.
def DestroyedOnce (s : UringRefs) : Prop :=
  s.destroyed = (if s.refs = 0 then 1 else 0) ∧
  (0 < s.destroyed → s.conn.closes = 1 ∧ s.conn.returned = true ∧ s.conn.functors = [])

theorem Owned.once (old : Owned s) : DestroyedOnce s := by
  refine ⟨old.counted,fun given => ?_⟩
  have gone : s.refs = 0 := by
    by_contra held
    rw [old.counted,if_neg held] at given
    exact Nat.lt_irrefl 0 given
  have closed : s.conn.state = .KDisconnected := by
    by_contra alive
    have mapped := refs_pos_of_mapped (old.listed alive).1
    omega
  refine ⟨by rw [old.sound.closes,if_pos closed],?_,?_⟩
  · by_contra unreturned
    have held := refs_pos_of_unreturned (eq_false_of_ne_true unreturned)
    omega
  · by_contra waiting
    have held := old.held waiting
    omega

-- With the rounds over, what is left of the holders is the entry in connections_.
theorem Owned.settled (old : Owned s) (returned : s.conn.returned = true) (queue : s.conn.functors = []) (ended : s.round = none)
    (none : s.conn.removals = 0) (unbound : s.bound = 0) : s.destroyed = 1 ↔ s.conn.closes = 1 := by
  have refs : s.refs = s.conn.mapped.toNat := by
    unfold refs
    rw [returned,queue,old.idle ended,none,unbound]
    rfl
  rw [old.counted,old.sound.closes,refs]
  cases mapped : s.conn.mapped with
  | true =>
    have alive : s.conn.state ≠ .KDisconnected := by
      intro closed
      have pending := old.sound.entry mapped closed
      omega
    rw [if_neg alive]
    decide
  | false =>
    have closed : s.conn.state = .KDisconnected := by
      by_contra alive
      rw [(old.listed alive).1] at mapped
      cases mapped
    rw [if_pos closed]
    decide

-- End of stream, and the handler returns at once: the guard outlives it, and the
-- server's loop destroys the connection.
def endOfStream : List Label := [.handler (.read 4),.handler (.completed 0 .EPIPE),.ret,.swap,.functor,.roundEnds,
  .removeConnectionInLoop,.removalEnds]

-- A handler that waits for something else after the end of stream returns when
-- nothing else holds the connection.
example : ∃ s final, machine.start s ∧ machine.run s [.handler (.read 4),.handler (.completed 0 .EPIPE),
    .handler .suspend,.swap,.functor,.roundEnds,.handler .resume,.ret] = some final ∧ final.inside = true :=
  ⟨_,_,⟨_,⟨true,rfl⟩,rfl⟩,rfl,rfl⟩

end NewMuduo.UringRefs
