import NewMuduo.ServerDestruction

namespace NewMuduo

namespace TcpServer
variable {Loop : Type u} {s : TcpServer Loop} {c : Nat} {loop : Loop}

-- What a step on the connections leaves alone.
def queues (s : TcpServer Loop) : Loop × (Loop → Tasks) := (s.loop,s.tasks)

theorem deref_queues {use : Conn Loop → TcpServer Loop} (kept : ∀ conn, (use conn).queues = s.queues) :
    (s.deref c use).queues = s.queues := by
  unfold deref
  split
  · exact kept _
  · rfl

theorem connectEstablished_queues (s : TcpServer Loop) (c : Nat) : (s.connectEstablished c).queues = s.queues := deref_queues fun _ => rfl

theorem connectDestroyed_queues (s : TcpServer Loop) (c : Nat) : (s.connectDestroyed c).queues = s.queues := deref_queues fun _ => rfl

theorem disconnect_queues (s : TcpServer Loop) (c : Nat) : (s.disconnect c).queues = s.queues := deref_queues fun _ => rfl

theorem setDisconnecting_queues (s : TcpServer Loop) (c : Nat) : (s.setDisconnecting c).queues = s.queues := deref_queues fun _ => rfl

end TcpServer

namespace ServerDestruction
variable {Loop : Type u} [DecidableEq Loop] {s t u : ServerDestruction Loop} {c : Nat} {loop : Loop}

omit [DecidableEq Loop] in
theorem used_before (before : s.destructor ≠ .finished) : s.used c = s.late := if_neg before

omit [DecidableEq Loop] in
theorem used_after (after : s.destructor = .finished) : s.used c = s.late ++ [c] := if_pos after

theorem idle_parts (idle : s.idle loop = true) : s.runs loop = true ∧ s.frames loop = [] := by
  simp only [ServerDestruction.idle,Bool.and_eq_true,List.isEmpty_iff] at idle
  exact idle.1

-- The destructor is over and has left nothing on the base loop that uses the
-- server.
structure Settled (s : ServerDestruction Loop) : Prop where
  finished : s.destructor = .finished
  threads : s.threads = []
  unused : s.Unused
  removed : ∀ c, .removeConnectionInLoop c ∉ s.server.waiting s.server.loop
  outside : ∀ entry ∈ s.frames s.server.loop, closes entry.2 = false

omit [DecidableEq Loop] in
-- The steps that leave the queues of the server alone.
theorem Settled.frame (old : Settled s) (destructor : t.destructor = s.destructor) (threads : t.threads = s.threads)
    (late : t.late = s.late) (queues : t.server.queues = s.server.queues)
    (frames : ∀ entry ∈ t.frames s.server.loop, entry ∈ s.frames s.server.loop ∨ closes entry.2 = false) : Settled t := by
  simp only [TcpServer.queues,Prod.mk.injEq] at queues
  obtain ⟨loop,tasks⟩ := queues
  refine ⟨destructor.trans old.finished,threads.trans old.threads,late.trans old.unused,fun c waits => ?_,?_⟩
  · unfold TcpServer.waiting at waits
    rw [loop,tasks] at waits
    exact old.removed c waits
  · intro entry member
    rw [loop] at member
    rcases frames entry member with before | harmless
    · exact old.outside entry before
    · exact harmless

omit [DecidableEq Loop] in
theorem Settled.setLink (old : Settled s) (c : Nat) (change : Link → Link) : Settled (s.setLink c change) :=
  old.frame rfl rfl rfl rfl fun _ member => .inl member

theorem Settled.call (old : Settled s) (here : Loop) (c : Nat) {frames : List Frame}
    (harmless : ∀ frame ∈ frames, closes frame = false) : Settled (s.call here c frames) := by
  refine old.frame rfl rfl rfl rfl fun entry member => ?_
  dsimp only [ServerDestruction.call] at member
  by_cases same : s.server.loop = here
  · subst same
    rw [Function.update_self] at member
    rcases List.mem_append.mp member with new | before
    · obtain ⟨frame,listed,rfl⟩ := List.mem_map.mp new
      exact .inr (harmless frame listed)
    · exact .inl before
  · rw [Function.update_of_ne same] at member
    exact .inl member

omit [DecidableEq Loop] in
theorem Settled.onServer (old : Settled s) {server : TcpServer Loop} (queues : server.queues = s.server.queues) :
    Settled {s with server := server} :=
  old.frame rfl rfl rfl queues fun _ member => .inl member

theorem Settled.on_base (old : Settled s) (runs : s.runs loop = true) : loop = s.server.loop := by
  unfold ServerDestruction.runs at runs
  rw [old.threads] at runs
  simpa using runs

theorem Settled.connectEstablished (old : Settled s) (here : Loop) (c : Nat) : Settled (s.connectEstablished here c) :=
  ((old.onServer (s.server.connectEstablished_queues c)).setLink c _).call here c (by simp [closes])

theorem Settled.connectDestroyed (old : Settled s) (here : Loop) (c : Nat) : Settled (s.connectDestroyed here c) := by
  have server := old.onServer (s.server.connectDestroyed_queues c)
  unfold ServerDestruction.connectDestroyed
  dsimp only
  split
  · exact (server.setLink c _).call here c (by simp [closes])
  · exact server.setLink c _

theorem Settled.runFunctor (old : Settled s) : Settled (s.runFunctor s.server.loop) := by
  unfold ServerDestruction.runFunctor
  split
  · rename_i task rest pendingFunctors here
    have waits : ∀ other ∈ rest ++ pendingFunctors,other ∈ s.server.waiting s.server.loop := by
      intro other member
      unfold TcpServer.waiting
      rw [here]
      exact List.mem_cons_of_mem _ member
    have popped : Settled (s.popFunctor s.server.loop task ⟨rest,pendingFunctors⟩) := by
      refine ⟨old.finished,old.threads,old.unused,fun c member => ?_,old.outside⟩
      simp only [TcpServer.waiting,popFunctor,Function.update_self] at member
      exact old.removed c (waits _ member)
    cases task with
    | connectEstablished c => exact popped.connectEstablished _ c
    | connectDestroyed c => exact popped.connectDestroyed _ c
    | removeConnectionInLoop c =>
      refine absurd ?_ (old.removed c)
      unfold TcpServer.waiting
      rw [here]
      exact List.mem_cons_self
  · exact old

-- The frame that a thread goes on with is not one of handleClose.
theorem Settled.runFrame (old : Settled s) (answer : Answer) : Settled (s.runFrame s.server.loop answer) := by
  unfold ServerDestruction.runFrame
  split
  · exact old
  · rename_i c frame rest here
    have harmless := old.outside (c,frame) (by rw [here]; exact List.mem_cons_self)
    have popped : Settled {s with frames := Function.update s.frames s.server.loop rest} := by
      refine old.frame rfl rfl rfl rfl fun entry member => .inl ?_
      dsimp only at member
      rw [Function.update_self] at member
      rw [here]
      exact List.mem_cons_of_mem _ member
    cases frame with
    | hup | read | closeCallback => cases harmless
    | error | userCode => exact popped
    | remove => exact popped.setLink c _
    | write =>
      cases answer with
      | emptied queued => exact popped.setLink c _
      | received | endOfFile | other => exact popped

theorem Settled.step (old : Settled s) (label : Label Loop) (able : s.allowed label = true) (met : s.Tidied label) :
    Settled (s.apply label) := by
  have quiet : ∀ {loop}, s.idle loop = true → loop = s.server.loop ∧ s.Quiet := by
    intro loop idle
    obtain ⟨runs,frames⟩ := idle_parts idle
    have base := old.on_base runs
    subst base
    exact ⟨rfl,met.2 old.finished frames⟩
  cases label with
  | newConnection => simp [allowed,old.finished] at able
  | poll loop events => exact old.frame rfl rfl rfl rfl fun _ member => .inl member
  | handleEvent loop =>
    simp only [allowed,Bool.and_eq_true] at able
    obtain ⟨rfl,still⟩ := quiet able.1
    simp only [apply,handleEvent]
    split
    · rename_i c revents rest here
      have after : Settled {s with phase := Function.update s.phase s.server.loop (.handling rest)} :=
        old.frame rfl rfl rfl rfl fun _ member => .inl member
      split
      · rename_i held
        exact after.call _ c (still.harmless _ here (c,revents) List.mem_cons_self held)
      · exact after
    · exact old
    · exact old
    · exact old
  | runFrame loop answer =>
    simp only [allowed,Bool.and_eq_true] at able
    obtain rfl := old.on_base able.1
    exact old.runFrame answer
  | forceCloseInLoop c =>
    simp only [allowed,Bool.and_eq_true,decide_eq_true_eq,Option.any_eq_true] at able
    obtain ⟨⟨loop,here,idle⟩,forced⟩ := able
    obtain ⟨rfl,still⟩ := quiet idle
    simp only [apply,forceCloseInLoop,here,still.unforced c here forced,Bool.false_eq_true,if_false]
    exact old.setLink c _
  | runPosted c =>
    simp only [apply,runPosted]
    split
    · exact old
    · split
      · exact (old.setLink c _).setLink c _
      · exact old.setLink c _
  | setClosing c how =>
    simp only [apply,setClosing]
    exact (old.onServer (s.server.setDisconnecting_queues c)).setLink c _
  | take c | drop c | passes c how | call c member | post c member =>
    simp only [apply]
    exact old.setLink c _
  | swap loop =>
    refine ⟨old.finished,old.threads,old.unused,fun c waits => old.removed c ?_,old.outside⟩
    simp only [apply,TcpServer.swapFunctors,TcpServer.waiting] at waits
    by_cases here : s.server.loop = loop
    · subst here
      rw [Function.update_self,List.append_nil] at waits
      exact List.mem_append_right _ waits
    · rw [Function.update_of_ne here] at waits
      exact waits
  | runFunctor loop =>
    simp only [allowed,Bool.and_eq_true] at able
    obtain ⟨rfl,_⟩ := quiet able.1
    exact old.runFunctor
  | clear loop => exact old.frame rfl rfl rfl rfl fun _ member => .inl member
  | destroy => simp [allowed,old.finished] at able
  | destroyConnection c => simp [allowed,old.finished] at able
  | join loop => simp [allowed,old.finished] at able
  | finish => simp [allowed,old.finished] at able

-- Where the destructor is and what late has.
def record (s : ServerDestruction Loop) : Destructor × List Nat := (s.destructor,s.late)

theorem connectDestroyed_record (s : ServerDestruction Loop) (here : Loop) (c : Nat) :
    (s.connectDestroyed here c).record = s.record := by
  unfold connectDestroyed
  dsimp only
  split <;> rfl

theorem perform_record (before : s.destructor ≠ .finished) (here : Loop) (task : Task) :
    (s.perform here task).record = s.record := by
  cases task with
  | connectEstablished c => rfl
  | removeConnectionInLoop c => exact congrArg (Prod.mk s.destructor) (used_before before)
  | connectDestroyed c => exact connectDestroyed_record s here c

theorem runFrame_record (before : s.destructor ≠ .finished) (loop : Loop) (answer : Answer) :
    (s.runFrame loop answer).record = s.record := by
  unfold runFrame
  split
  · rfl
  · rename_i c frame rest here
    cases frame with
    | closeCallback => exact congrArg (Prod.mk s.destructor) (used_before before)
    | hup | error | userCode | remove => rfl
    | read | write => cases answer <;> rfl

-- What a step does before the destructor is over.
theorem apply_record (before : s.destructor ≠ .finished) (label : Label Loop) (more : label ≠ .finish) :
    (s.apply label).late = s.late ∧ (s.apply label).destructor ≠ .finished := by
  have same : ∀ {t : ServerDestruction Loop}, t.record = s.record → t.late = s.late ∧ t.destructor ≠ .finished := by
    intro t record
    simp only [ServerDestruction.record,Prod.mk.injEq] at record
    exact ⟨record.2,record.1 ▸ before⟩
  cases label with
  | newConnection =>
    refine same ?_
    simp only [apply,newConnection]
    split <;> rfl
  | handleEvent loop =>
    refine same ?_
    simp only [apply,handleEvent]
    split
    · split <;> rfl
    · rfl
    · rfl
    · rfl
  | runFrame loop answer => exact same (runFrame_record before loop answer)
  | forceCloseInLoop c =>
    refine same ?_
    simp only [apply,forceCloseInLoop]
    split
    · split <;> rfl
    · rfl
  | runPosted c =>
    refine same ?_
    simp only [apply,runPosted]
    split
    · rfl
    · split <;> rfl
  | runFunctor loop =>
    refine same ?_
    simp only [apply,runFunctor]
    split
    · rename_i task rest pendingFunctors here
      exact perform_record (s := s.popFunctor loop task ⟨rest,pendingFunctors⟩) before loop task
    · rfl
  | destroy => exact ⟨rfl,Destructor.noConfusion⟩
  | destroyConnection c =>
    simp only [apply]
    split
    · rename_i rest below here
      unfold destroyConnection
      split
      · split
        · rename_i loop _ _
          have record := connectDestroyed_record {s with destructor := .looping (rest.erase c) below} loop c
          simp only [ServerDestruction.record,Prod.mk.injEq] at record
          refine ⟨record.2,?_⟩
          rw [record.1]
          exact Destructor.noConfusion
        · exact ⟨rfl,Destructor.noConfusion⟩
      · exact ⟨rfl,Destructor.noConfusion⟩
    · exact ⟨rfl,before⟩
    · exact ⟨rfl,before⟩
  | finish => exact absurd rfl more
  | poll loop events | swap loop | clear loop | join loop => exact ⟨rfl,before⟩
  | take c | drop c | passes c how | setClosing c how | call c member | post c member => exact ⟨rfl,before⟩

-- What a run keeps that meets the condition.
structure Kept (s : ServerDestruction Loop) : Prop where
  before : s.destructor ≠ .finished → s.Unused
  after : s.destructor = .finished → Settled s

theorem finish_settled (unused : s.Unused) (able : s.allowed .finish = true) (tidy : s.Tidy) : Settled (s.apply .finish) := by
  have threads : s.threads = [] := by
    simp only [allowed] at able
    split at able
    · simp only [Bool.and_eq_true,List.isEmpty_iff] at able
      exact able.1
    · cases able
    · cases able
    · cases able
  refine ⟨rfl,threads,unused,tidy.removed,fun entry member => tidy.outside entry ?_⟩
  simp only [apply,Function.update_self] at member
  exact member

theorem Kept.step (old : Kept s) (label : Label Loop) (able : s.allowed label = true) (met : s.Tidied label) :
    Kept (s.apply label) := by
  by_cases finished : s.destructor = .finished
  · have settled := (old.after finished).step label able met
    exact ⟨fun before => absurd settled.finished before,fun _ => settled⟩
  · by_cases last : label = .finish
    · subst last
      have settled := finish_settled (old.before finished) able (met.1 rfl)
      exact ⟨fun before => absurd settled.finished before,fun _ => settled⟩
    · obtain ⟨late,before⟩ := apply_record finished label last
      exact ⟨fun _ => late.trans (old.before finished),fun after => absurd after before⟩

-- Some continuation uses the server.
def WillUse (s : ServerDestruction Loop) : Prop := ∃ labels last, machine.run s labels = some last ∧ ¬last.Unused

theorem will_use_step (label : Label Loop) (able : s.allowed label = true) (later : (s.apply label).WillUse) : s.WillUse := by
  obtain ⟨labels,last,ran,used⟩ := later
  have taken : machine.next s label = some (s.apply label) := Machine.guarded_parts.mpr ⟨able,rfl⟩
  exact ⟨label :: labels,last,(Machine.run_cons taken).trans ran,used⟩

theorem will_use_now (used : ¬s.Unused) : s.WillUse := ⟨[],s,rfl,used⟩

omit [DecidableEq Loop] in
theorem not_unused (finished : t.destructor = .finished) (late : s.late = t.used c) : ¬s.Unused := by
  intro unused
  rw [Unused,late,used_after finished] at unused
  exact List.cons_ne_nil _ _ (List.append_eq_nil_iff.mp unused).2

theorem runFrame_allowed (answer : Answer) (here : s.frames s.server.loop = entry :: rest) :
    s.allowed (.runFrame s.server.loop answer) = true := by
  simp [allowed,runs,here]

-- The next frame goes away, in the way that answer says.
theorem will_use_frame (answer : Answer) (here : s.frames s.server.loop = entry :: rest)
    (later : (s.runFrame s.server.loop answer).WillUse) : s.WillUse :=
  will_use_step (.runFrame s.server.loop answer) (runFrame_allowed answer here) later

theorem callback_will_use (finished : s.destructor = .finished)
    (here : s.frames s.server.loop = (c,.userCode) :: (c,.closeCallback) :: rest) : s.WillUse := by
  have next : (s.runFrame s.server.loop .other).frames (s.runFrame s.server.loop .other).server.loop = (c,.closeCallback) :: rest := by
    simp only [runFrame,here,Function.update_self]
  refine will_use_frame .other here (will_use_frame .other next (will_use_now ?_))
  refine not_unused (t := s) (c := c) finished ?_
  simp only [runFrame,here,Function.update_self]
  rfl

theorem handleClose_will_use (finished : s.destructor = .finished) (c : Nat) : (s.handleClose s.server.loop c).WillUse := by
  have base : (s.handleClose s.server.loop c).server.loop = s.server.loop := congrArg Prod.fst (s.server.disconnect_queues c)
  have here : (s.handleClose s.server.loop c).frames (s.handleClose s.server.loop c).server.loop =
      (c,.userCode) :: (c,.closeCallback) :: s.frames s.server.loop := by
    rw [base]
    exact Function.update_self ..
  exact callback_will_use finished here

-- A frame that is not one of handleClose comes to nothing.
structure Popped (s t : ServerDestruction Loop) : Prop where
  server : t.server = s.server
  destructor : t.destructor = s.destructor
  phase : t.phase = s.phase
  spent : t.spent = s.spent
  forced : ∀ c, (t.links c).forced = (s.links c).forced
  users : ∀ c, (t.links c).users = (s.links c).users
  elsewhere : ∀ other, other ≠ s.server.loop → t.frames other = s.frames other

omit [DecidableEq Loop] in
theorem Popped.refl (s : ServerDestruction Loop) : Popped s s := ⟨rfl,rfl,rfl,rfl,fun _ => rfl,fun _ => rfl,fun _ _ => rfl⟩

omit [DecidableEq Loop] in
theorem Popped.trans (first : Popped s t) (second : Popped t u) : Popped s u := by
  refine ⟨second.server.trans first.server,second.destructor.trans first.destructor,second.phase.trans first.phase,
    second.spent.trans first.spent,fun c => (second.forced c).trans (first.forced c),
    fun c => (second.users c).trans (first.users c),fun other apart => ?_⟩
  have still : other ≠ t.server.loop := by
    rw [first.server]
    exact apart
  exact (second.elsewhere other still).trans (first.elsewhere other apart)

theorem popped (here : s.frames s.server.loop = (c,frame) :: rest) (harmless : closes frame = false) :
    Popped s (s.runFrame s.server.loop .other) ∧ (s.runFrame s.server.loop .other).frames s.server.loop = rest := by
  have gone : Popped s {s with frames := Function.update s.frames s.server.loop rest} :=
    ⟨rfl,rfl,rfl,rfl,fun _ => rfl,fun _ => rfl,fun _ apart => Function.update_of_ne apart ..⟩
  cases frame with
  | hup | read | closeCallback => cases harmless
  | error | userCode | write =>
    simp only [runFrame,here]
    exact ⟨gone,Function.update_self ..⟩
  | remove =>
    simp only [runFrame,here]
    refine ⟨gone.trans ⟨rfl,rfl,rfl,rfl,fun d => ?_,fun d => ?_,fun _ _ => rfl⟩,Function.update_self ..⟩
    · by_cases same : d = c
      · subst same
        simp [setLink,Link.remove]
      · simp [setLink,same]
    · by_cases same : d = c
      · subst same
        simp [setLink,Link.remove]
      · simp [setLink,same]

-- The base loop gets back to its own code, unless it closes a connection first.
theorem frames_will_use (frames : List (Nat × Frame)) (finished : s.destructor = .finished)
    (same : s.frames s.server.loop = frames)
    (later : ∀ t, Popped s t → t.frames t.server.loop = [] → (∀ entry ∈ frames, closes entry.2 = false) → t.WillUse) :
    s.WillUse := by
  induction frames generalizing s with
  | nil => exact later s (.refl s) same fun _ absent => nomatch absent
  | cons entry rest ih =>
    obtain ⟨c,frame⟩ := entry
    by_cases harmless : closes frame = false
    · obtain ⟨one,left⟩ := popped same harmless
      have next : (s.runFrame s.server.loop .other).frames (s.runFrame s.server.loop .other).server.loop = rest := by
        rw [one.server]
        exact left
      refine will_use_frame .other same (ih (one.destructor.trans finished) next fun t more empty others => ?_)
      refine later t (one.trans more) empty fun entry member => ?_
      rcases List.mem_cons.mp member with rfl | tail
      · exact harmless
      · exact others entry tail
    · cases frame with
      | error | userCode | write | remove => exact absurd rfl harmless
      | hup =>
        refine will_use_frame .other same ?_
        simp only [runFrame,same]
        exact handleClose_will_use (s := {s with frames := Function.update s.frames s.server.loop rest}) finished c
      | read =>
        refine will_use_frame .endOfFile same ?_
        simp only [runFrame,same]
        exact handleClose_will_use (s := {s with frames := Function.update s.frames s.server.loop rest}) finished c
      | closeCallback =>
        refine will_use_frame .other same (will_use_now (not_unused (t := s) (c := c) finished ?_))
        simp only [runFrame,same]
        rfl

theorem closing_will_use (finished : s.destructor = .finished) (entry : Nat × Frame) (member : entry ∈ s.frames s.server.loop)
    (closing : closes entry.2 = true) : s.WillUse := by
  refine frames_will_use _ finished rfl fun t _ _ harmless => ?_
  cases closing.symm.trans (harmless entry member)

-- The base loop in its own code after the destructor.
structure Back (s : ServerDestruction Loop) : Prop where
  finished : s.destructor = .finished
  frames : s.frames s.server.loop = []

theorem Back.idle (back : Back s) : s.idle s.server.loop = true := by
  simp [ServerDestruction.idle,runs,back.finished,back.frames]

omit [DecidableEq Loop] in
theorem Back.below (back : Back s) : s.below = [] := by
  unfold ServerDestruction.below
  rw [back.finished]

theorem Popped.holds (popped : Popped s t) (back : Back s) (after : Back t) (c : Nat) : t.holds c = s.holds c := by
  have frames : t.frames = s.frames := by
    funext loop
    by_cases same : loop = s.server.loop
    · subst same
      rw [back.frames]
      exact popped.server ▸ after.frames
    · exact popped.elsewhere loop same
  unfold ServerDestruction.holds mapped carried
  rw [popped.server,popped.spent,popped.forced,popped.users,popped.destructor,back.below,after.below,frames]

theorem event_will_use (back : Back s) (here : s.phase s.server.loop = .handling ((c,revents) :: rest)) (held : s.holds c = true)
    (member : frame ∈ ConnLoop.callbacks revents) (closing : closes frame = true) : s.WillUse := by
  refine will_use_step (.handleEvent s.server.loop) (by simp [allowed,back.idle,here]) ?_
  have after : s.apply (.handleEvent s.server.loop) =
      {s with phase := Function.update s.phase s.server.loop (.handling rest)}.call s.server.loop c (ConnLoop.callbacks revents) := by
    simp only [apply,handleEvent,here,held,if_true]
  rw [after]
  refine closing_will_use back.finished (c,frame) ?_ closing
  simp only [call,Function.update_self]
  exact List.mem_append_left _ (List.mem_map_of_mem member)

-- An event that closes nothing is handled.
theorem handled_will_use (back : Back s) (here : s.phase s.server.loop = .handling (event :: rest))
    (later : ∀ t, Back t → t.server = s.server → t.phase t.server.loop = .handling rest →
      (∀ c, t.holds c = s.holds c) → t.WillUse) : s.WillUse := by
  obtain ⟨c,revents⟩ := event
  let after : ServerDestruction Loop := {s with phase := Function.update s.phase s.server.loop (.handling rest)}
  have moved : Back after := ⟨back.finished,back.frames⟩
  refine will_use_step (.handleEvent s.server.loop) (by simp [allowed,back.idle,here]) ?_
  simp only [apply,handleEvent,here]
  split
  · refine frames_will_use (s := after.call s.server.loop c (ConnLoop.callbacks revents)) _ back.finished rfl fun t popped empty _ => ?_
    have finished : t.destructor = .finished := popped.destructor.trans back.finished
    refine later t ⟨finished,empty⟩ popped.server ?_ ?_
    · rw [popped.phase,popped.server]
      exact Function.update_self ..
    · have straight : Popped after t := by
        refine ⟨popped.server,popped.destructor,popped.phase,popped.spent,popped.forced,popped.users,fun other apart => ?_⟩
        exact (popped.elsewhere other apart).trans (Function.update_of_ne apart ..)
      exact straight.holds moved ⟨finished,empty⟩
  · exact later after moved rfl (Function.update_self ..) fun _ => rfl

theorem events_will_use (active : List (Nat × BitVec 32)) (back : Back s) (here : s.phase s.server.loop = .handling active)
    (member : (c,revents) ∈ active) (held : s.holds c = true) (listed : frame ∈ ConnLoop.callbacks revents)
    (closing : closes frame = true) : s.WillUse := by
  induction active generalizing s with
  | nil => cases member
  | cons event rest ih =>
    rcases List.mem_cons.mp member with rfl | later
    · exact event_will_use back here held listed closing
    · refine handled_will_use back here fun t after _ phase holds => ?_
      exact ih after phase later ((holds c).trans held)

theorem hup_reported {l : Link} (registered : l.registered ≠ none) : l.reports EPOLLHUP = true := by
  obtain ⟨entry,here⟩ := Option.ne_none_iff_exists'.mp registered
  have unasked : EPOLLHUP &&& ~~~(EPOLLERR ||| EPOLLHUP) = 0 := by decide
  unfold Link.reports
  rw [here,Option.any_some,unasked]
  simp

-- A connection that is not quiet is closed some day.
theorem unquiet_will_use (back : Back s) (unquiet : ¬s.Quiet) : s.WillUse := by
  by_contra never
  refine unquiet ⟨fun polling c place held => ?_,fun active here event member held frame listed => ?_,fun c place forced => ?_⟩
  · by_contra registered
    have able : s.allowed (.poll s.server.loop [(c,EPOLLHUP)]) = true := by
      simp [allowed,back.idle,polling,reports,place,held,hup_reported registered]
    have phase : (s.apply (.poll s.server.loop [(c,EPOLLHUP)])).phase s.server.loop = .handling [(c,EPOLLHUP)] :=
      Function.update_self ..
    have hup : .hup ∈ ConnLoop.callbacks EPOLLHUP := by decide
    refine never (will_use_step _ able ?_)
    exact event_will_use ⟨back.finished,back.frames⟩ phase held hup rfl
  · by_contra closing
    exact never (events_will_use active back here member held listed (Bool.not_eq_false _ ▸ closing))
  · by_contra live
    have able : s.allowed (.forceCloseInLoop c) = true := by
      simp [allowed,place,back.idle,forced]
    refine never (will_use_step _ able ?_)
    simp only [apply,forceCloseInLoop,place,Bool.not_eq_false _ ▸ live,if_true]
    exact handleClose_will_use (s := s.setLink c fun l => {l with forced := l.forced - 1}) back.finished c

-- The base loop runs a functor and comes back, unless it uses the server first.
theorem functor_will_use {pending : List Task} (back : Back s) (here : s.server.tasks s.server.loop = ⟨task :: rest,pending⟩)
    (later : ∀ t : ServerDestruction Loop, Back t → t.server.tasks t.server.loop = ⟨rest,pending⟩ →
      t.phase t.server.loop = s.phase s.server.loop → t.WillUse) : s.WillUse := by
  refine will_use_step (.runFunctor s.server.loop) (by simp [allowed,back.idle,here]) ?_
  simp only [apply,runFunctor,here]
  let popped := s.popFunctor s.server.loop task ⟨rest,pending⟩
  have gets_back : ∀ after : ServerDestruction Loop, after.destructor = .finished → after.server.queues = popped.server.queues →
      after.phase = s.phase → after.WillUse := by
    intro after finished queues phase
    simp only [TcpServer.queues,Prod.mk.injEq] at queues
    obtain ⟨base,tasks⟩ := queues
    refine frames_will_use _ finished rfl fun t gone empty _ => ?_
    refine later t ⟨gone.destructor.trans finished,empty⟩ ?_ ?_
    · rw [gone.server,base,tasks]
      exact Function.update_self ..
    · rw [gone.phase,gone.server,base,phase]
      rfl
  cases task with
  | removeConnectionInLoop c => exact will_use_now (not_unused (t := s) (c := c) back.finished rfl)
  | connectEstablished c =>
    exact gets_back _ back.finished (popped.server.connectEstablished_queues c) rfl
  | connectDestroyed c =>
    refine gets_back (popped.connectDestroyed s.server.loop c) ?_ ?_ ?_
    · exact (congrArg Prod.fst (connectDestroyed_record popped s.server.loop c)).trans back.finished
    · unfold connectDestroyed
      dsimp only
      split <;> exact popped.server.connectDestroyed_queues c
    · unfold connectDestroyed
      dsimp only
      split <;> rfl

theorem functors_will_use (tasks : List Task) (back : Back s) (here : (s.server.tasks s.server.loop).functors = tasks)
    (member : .removeConnectionInLoop c ∈ tasks) : s.WillUse := by
  induction tasks generalizing s with
  | nil => cases member
  | cons task rest ih =>
    have queues : s.server.tasks s.server.loop = ⟨task :: rest,(s.server.tasks s.server.loop).pendingFunctors⟩ := by
      rw [← here]
    rcases List.mem_cons.mp member with rfl | later
    · refine will_use_step (.runFunctor s.server.loop) (by simp [allowed,back.idle,here]) (will_use_now ?_)
      refine not_unused (t := s) (c := c) back.finished ?_
      simp only [apply,runFunctor]
      rw [queues]
      rfl
    · exact functor_will_use back queues fun t after left _ => ih after (congrArg Tasks.functors left) later

theorem batch_will_use {pending : List Task} (tasks : List Task) (back : Back s)
    (here : s.server.tasks s.server.loop = ⟨tasks,pending⟩)
    (later : ∀ t : ServerDestruction Loop, Back t → t.server.tasks t.server.loop = ⟨[],pending⟩ →
      t.phase t.server.loop = s.phase s.server.loop → t.WillUse) : s.WillUse := by
  induction tasks generalizing s with
  | nil => exact later s back here rfl
  | cons task rest ih =>
    refine functor_will_use back here fun t after left phase => ?_
    exact ih after left fun u last done same => later u last done (same.trans phase)

-- The rest of a turn of the base loop, to its next batch.
theorem handling_will_use {pending : List Task} (active : List (Nat × BitVec 32)) (back : Back s)
    (phase : s.phase s.server.loop = .handling active) (here : s.server.tasks s.server.loop = ⟨[],pending⟩)
    (member : .removeConnectionInLoop c ∈ pending) : s.WillUse := by
  induction active generalizing s with
  | nil =>
    refine will_use_step (.swap s.server.loop) (by simp [allowed,back.idle,phase,here]) ?_
    refine functors_will_use (c := c) pending ⟨back.finished,back.frames⟩ ?_ member
    simp only [apply,TcpServer.swapFunctors,Function.update_self,here]
  | cons event rest ih =>
    refine handled_will_use back phase fun t after server left _ => ih after left ?_
    rw [server]
    exact here

theorem polling_will_use {pending : List Task} (back : Back s) (phase : s.phase s.server.loop = .polling)
    (here : s.server.tasks s.server.loop = ⟨[],pending⟩) (member : .removeConnectionInLoop c ∈ pending) : s.WillUse := by
  refine will_use_step (.poll s.server.loop []) (by simp [allowed,back.idle,phase]) ?_
  exact handling_will_use [] ⟨back.finished,back.frames⟩ (Function.update_self ..) here member

theorem pending_will_use {pending : List Task} (tasks : List Task) (back : Back s)
    (here : s.server.tasks s.server.loop = ⟨tasks,pending⟩) (member : .removeConnectionInLoop c ∈ pending) : s.WillUse := by
  refine batch_will_use tasks back here fun t after left _ => ?_
  cases phase : t.phase t.server.loop with
  | polling => exact polling_will_use after phase left member
  | handling active => exact handling_will_use active after phase left member
  | functors =>
    refine will_use_step (.clear t.server.loop) (by simp [allowed,after.idle,phase,left]) ?_
    exact polling_will_use ⟨after.finished,after.frames⟩ (Function.update_self ..) left member

-- So is one that has been removed by a task that the destructor has left.
theorem untidy_will_use (able : s.allowed .finish = true) (untidy : ¬s.Tidy) : s.WillUse := by
  refine will_use_step .finish able ?_
  have stack : (s.apply .finish).frames s.server.loop = s.below := Function.update_self ..
  by_contra never
  refine untidy ⟨fun c waits => never ?_,fun entry member => ?_⟩
  · refine frames_will_use _ rfl stack fun t gone empty _ => ?_
    have back : Back t := ⟨gone.destructor,empty⟩
    have queues : t.server.tasks t.server.loop = s.server.tasks s.server.loop := by
      rw [gone.server]
      rfl
    rcases List.mem_append.mp waits with functors | pending
    · exact functors_will_use _ back (congrArg Tasks.functors queues) functors
    · exact pending_will_use _ back queues pending
  · by_contra closing
    refine never (closing_will_use rfl entry ?_ (Bool.not_eq_false _ ▸ closing))
    rw [← stack] at member
    exact member

theorem meets_before (labels : List (Label Loop)) (before : s.destructor ≠ .finished) (unended : .finish ∉ labels) :
    machine.Meets Tidied s labels := by
  induction labels generalizing s with
  | nil => trivial
  | cons label rest ih =>
    obtain ⟨first,others⟩ := List.ne_and_not_mem_of_not_mem_cons unended
    refine ⟨⟨fun same => absurd same.symm first,fun after => absurd after before⟩,fun after taken => ?_⟩
    obtain ⟨_,rfl⟩ := Machine.guarded_parts.mp taken
    exact ih (apply_record before label (Ne.symm first)).2 others

-- In a run that meets the condition nothing uses the server after the
-- destructor. Where a step misses it, some continuation does.
theorem unused_iff_tidied (labels : List (Label Loop)) (origin : machine.start s) :
    (machine.Meets Tidied s labels → machine.Throughout Unused s labels) ∧
    ∀ final label after, machine.run s labels = some final → machine.next final label = some after → ¬final.Tidied label →
      ∃ more last, machine.run final more = some last ∧ ¬last.Unused := by
  constructor
  · have sound : ∀ s : ServerDestruction Loop, Kept s → s.Unused := by
      intro s kept
      by_cases finished : s.destructor = .finished
      · exact (kept.after finished).unused
      · exact kept.before finished
    have start : Kept s := by
      obtain ⟨loop,name,loops,rfl⟩ := origin
      exact ⟨fun _ => rfl,fun after => by cases after⟩
    refine Machine.throughout_of_meets sound ?_ start
    intro s label after old met taken
    obtain ⟨able,rfl⟩ := Machine.guarded_parts.mp taken
    exact old.step label able met
  · intro final label after _ taken missed
    obtain ⟨able,_⟩ := Machine.guarded_parts.mp taken
    by_contra never
    refine missed ⟨fun same => ?_,fun finished frames => ?_⟩
    · subst same
      by_contra untidy
      exact never (untidy_will_use able untidy)
    · by_contra unquiet
      exact never (unquiet_will_use ⟨finished,frames⟩ unquiet)

-- A connection of the base loop that its user has shut down keeps its entry in
-- the poller; the user drops it after the destructor and before the next poll.
def shutDown : List (Label Nat) :=
  [.poll 0 [],.newConnection,.take 0,.runFrame 0 .other,.passes 0 .shutdown,.setClosing 0 .shutdown,.destroy,.destroyConnection 0]

def dropped : List (Label Nat) := [.finish,.drop 0,.swap 0,.clear 0,.poll 0 []]

theorem unused_after_drop : ∃ s, (machine : Machine (ServerDestruction Nat) (Label Nat)).run (new 0 "echo" []) shutDown = some s ∧
    (s.server.live 0 && s.holds 0 && (s.links 0).registered.isSome) = true ∧
    machine.Throughout Unused (new 0 "echo" []) (shutDown ++ dropped) := by
  have unforced : ∀ t : ServerDestruction Nat, (t.links 0).forced = 0 → (∀ c, t.server.loopOf (c + 1) = none) →
      ∀ c, t.server.loopOf c = some t.server.loop → 0 < (t.links c).forced → t.server.live c = false := by
    intro t none others c here forced
    match c with
    | 0 => exact absurd none (Nat.ne_of_gt forced)
    | c + 1 => cases here.symm.trans (others c)
  have ran : ∃ s, (machine : Machine (ServerDestruction Nat) (Label Nat)).run (new 0 "echo" []) shutDown = some s ∧
      (s.server.live 0 && s.holds 0 && (s.links 0).registered.isSome) = true ∧ machine.Meets Tidied s dropped := by
    refine ⟨_,rfl,rfl,?_⟩
    unfold dropped
    refine .cons ⟨fun _ => ⟨fun c waits => (by cases waits),fun _ absent => (by cases absent)⟩,fun after => (by cases after)⟩ rfl ?_
    iterate 2
      refine .cons ⟨fun same => (by cases same),fun _ _ => ⟨LoopPhase.noConfusion,?_,unforced _ rfl fun _ => rfl⟩⟩ rfl ?_
      · intro active here event member
        cases here
        cases member
    · refine .cons ⟨fun same => (by cases same),fun _ _ => ⟨LoopPhase.noConfusion,fun _ => LoopPhase.noConfusion,?_⟩⟩ rfl ?_
      · exact unforced _ rfl fun _ => rfl
      · refine .cons ⟨fun same => (by cases same),fun _ _ => ⟨?_,fun _ => LoopPhase.noConfusion,?_⟩⟩ rfl trivial
        · intro _ c here held
          match c with
          | 0 => cases held
          | c + 1 => cases here
        · exact unforced _ rfl fun _ => rfl
  obtain ⟨s,ran,left,met⟩ := ran
  have prior : machine.Meets Tidied (new 0 "echo" []) shutDown := meets_before _ Destructor.noConfusion (by decide)
  exact ⟨s,ran,left,(unused_iff_tidied _ ⟨0,"echo",[],rfl⟩).1 (Machine.meets_append ran prior met)⟩

-- The I/O loop closes the connection while the destructor is in its loop, and
-- the base loop goes on after it.
theorem removed_after_destructor : ∃ s, (machine : Machine (ServerDestruction Nat) (Label Nat)).run (new 0 "echo" [1])
      [.poll 0 [],.newConnection,.poll 1 [],.swap 1,.runFunctor 1,.runFrame 1 .other,.clear 1,.destroy,
        .poll 1 [(0,EPOLLIN)],.handleEvent 1,.runFrame 1 .endOfFile,.runFrame 1 .other,.runFrame 1 .other,
        .swap 1,.destroyConnection 0,.join 1,.finish,.swap 0,.runFunctor 0] = some s ∧ s.late = [0] ∧ ¬s.Unused := by
  refine ⟨_,rfl,rfl,fun unused => ?_⟩
  cases unused

end ServerDestruction
end NewMuduo
