import NewMuduo.ConnectionLife
import NewMuduo.Errands
import NewMuduo.Ledger

namespace NewMuduo.TcpServer
variable {Loop : Type u} [DecidableEq Loop] {s : TcpServer Loop} {conn next : Conn Loop} {c : Nat}
  {stage : Nat → Stage} {hand : Option Task} {loop : Loop} {task : Task}

-- All that waits to run on a loop.
def waiting (s : TcpServer Loop) (loop : Loop) : List Task := (s.tasks loop).functors ++ (s.tasks loop).pendingFunctors

def errand (base : Loop) (c : Nat) (conn : Conn Loop) : Stage → Option (Loop × Task)
  | .waiting => some (conn.loop,.connectEstablished c)
  | .closing => some (base,.removeConnectionInLoop c)
  | .removed => some (conn.loop,.connectDestroyed c)
  | .up | .destroyed => none

def due (base : Loop) (conns : Nat → Option (Conn Loop)) (stage : Nat → Stage) (c : Nat) : Option (Loop × Task) :=
  (conns c).bind fun conn => errand base c conn (stage c)

-- The TcpConnection at a stage of its course.
def Fits (conn : Conn Loop) : Stage → Prop
  | .waiting => conn.state = .kConnecting ∧ conn.added = false ∧ conn.closed = false
  | .up => (conn.state = .kConnected ∨ conn.state = .kDisconnecting) ∧ conn.added = true ∧ conn.closed = false
  | .closing | .removed | .destroyed => conn.state = .kDisconnected ∧ conn.added = true ∧ conn.closed = true

-- Every connection is somewhere on its course, with its next step waiting on
-- the loop it is for, or in hand.
structure Lives (s : TcpServer Loop) (stage : Nat → Stage) (hand : Option Task) : Prop where
  errands : Errands Task.conn s.waiting (due s.loop s.conns stage) hand
  fits : ∀ c conn, s.conns c = some conn → Fits conn (stage c)
  lived : ∀ c conn, s.conns c = some conn → Lived c (s.log.filter (·.conn = c)) (stage c)
  fresh : ∀ c conn, s.conns c = some conn → c < s.accepted
  known : ∀ act ∈ s.log, (s.conns act.conn).isSome
  named : ∀ c conn, s.conns c = some conn → conn.name = connName s.name (connId c)
  nextId : s.nextConnId = connId s.accepted
  listed : ∀ name c, s.connections name = some c ↔
    ∃ conn, s.conns c = some conn ∧ conn.name = name ∧ (stage c).listed = true
  sound : s.fault = false

omit [DecidableEq Loop] in
theorem deref_some (found : s.conns c = some conn) (use : Conn Loop → TcpServer Loop) : s.deref c use = use conn := by
  unfold deref
  rw [found]

omit [DecidableEq Loop] in
theorem errand_conn (here : errand loop c conn stage' = some (place,task)) : task.conn = c := by
  cases stage' <;> cases here <;> rfl

omit [DecidableEq Loop] in
theorem errand_stage (here : errand loop c conn stage' = some (place,task)) : stage' = task.stage := by
  cases stage' <;> cases here <;> rfl

omit [DecidableEq Loop] in
theorem due_update (base : Loop) (conns : Nat → Option (Conn Loop)) (stage : Nat → Stage) (c : Nat) (next : Conn Loop)
    (after : Stage) : due base (Function.update conns c (some next)) (Function.update stage c after) =
      fun other => if other = c then errand base c next after else due base conns stage other := by
  funext other
  unfold due
  split <;> rename_i same
  · rw [same,Function.update_self,Function.update_self]
    rfl
  · rw [Function.update_of_ne same,Function.update_of_ne same]

omit [DecidableEq Loop] in
theorem deref_accepted (use : Conn Loop → TcpServer Loop) (kept : ∀ conn, (use conn).accepted = s.accepted) :
    (s.deref c use).accepted = s.accepted := by
  unfold deref
  split
  · exact kept _
  · rfl

theorem perform_accepted (s : TcpServer Loop) (task : Task) : (s.perform task).accepted = s.accepted := by
  cases task <;> exact deref_accepted _ fun _ => rfl

theorem runInLoop_accepted (s : TcpServer Loop) (here loop : Loop) (task : Task) :
    (s.runInLoop here loop task).accepted = s.accepted := by
  unfold runInLoop
  split
  · exact perform_accepted s task
  · rfl

theorem newConnection_accepted (s : TcpServer Loop) : s.newConnection.accepted = s.accepted + 1 :=
  runInLoop_accepted _ _ _ _

theorem accepted_le (s : TcpServer Loop) (label : Label Loop) : s.accepted ≤ (s.apply label).accepted := by
  cases label with
  | newConnection => exact (newConnection_accepted s).symm ▸ Nat.le_succ _
  | handleEvent c => exact Nat.le_refl _
  | handleClose c =>
    have same : (s.apply (.handleClose c)).accepted = s.accepted := deref_accepted _ fun _ => runInLoop_accepted _ _ _ _
    exact Nat.le_of_eq same.symm
  | shutdown c =>
    have same : (s.apply (.shutdown c)).accepted = s.accepted := deref_accepted _ fun _ => rfl
    exact Nat.le_of_eq same.symm
  | swap loop => exact Nat.le_refl _
  | runFunctor loop =>
    unfold apply runFunctor
    dsimp only
    split
    · refine Nat.le_of_eq (Eq.symm ?_)
      exact perform_accepted _ _
    · exact Nat.le_refl _

namespace Lives

-- One connection moves on its course and nothing else does.
theorem advance (old : Lives s stage hand) (found : s.conns c = some conn) (next : Conn Loop) (loop : next.loop = conn.loop)
    (name : next.name = conn.name) {after : Stage} {acts : List Act} {connections : String → Option Nat} {new : Option Task}
    (about : ∀ act ∈ acts, act.conn = c) (fits : Fits next after)
    (lived : Lived c (s.log.filter (·.conn = c) ++ acts) after) (kept : after.listed = true → (stage c).listed = true)
    (entries : ∀ name d, connections name = some d ↔ s.connections name = some d ∧ (d = c → after.listed = true))
    (errands : Errands Task.conn s.waiting
      (fun other => if other = c then errand s.loop c next after else due s.loop s.conns stage other) new) :
    Lives {s with conns := Function.update s.conns c (some next),log := s.log ++ acts,connections := connections}
      (Function.update stage c after) new := by
  refine ⟨?_,?_,?_,?_,?_,?_,old.nextId,?_,old.sound⟩
  · rw [due_update]
    exact errands
  · intro d a there
    rcases Ledger.update_some there with ⟨rfl,rfl⟩ | ⟨apart,there⟩
    · rwa [Function.update_self]
    · rw [Function.update_of_ne apart]
      exact old.fits d a there
  · intro d a there
    dsimp only
    rw [List.filter_append]
    rcases Ledger.update_some there with ⟨rfl,rfl⟩ | ⟨apart,there⟩
    · have mine : acts.filter (·.conn = d) = acts := List.filter_eq_self.mpr fun act member => decide_eq_true (about act member)
      rw [Function.update_self,mine]
      exact lived
    · have others : acts.filter (·.conn = d) = [] := by
        refine List.filter_eq_nil_iff.mpr fun act member => ?_
        rw [about act member]
        simpa using Ne.symm apart
      rw [Function.update_of_ne apart,others,List.append_nil]
      exact old.lived d a there
  · intro d a there
    rcases Ledger.update_some there with ⟨rfl,rfl⟩ | ⟨_,there⟩
    · exact old.fresh d conn found
    · exact old.fresh d a there
  · intro act member
    dsimp only
    by_cases same : act.conn = c
    · rw [same,Function.update_self]
      rfl
    · rw [Function.update_of_ne same]
      rcases List.mem_append.mp member with member | mine
      · exact old.known act member
      · exact absurd (about act mine) same
  · intro d a there
    rcases Ledger.update_some there with ⟨rfl,rfl⟩ | ⟨_,there⟩
    · rw [name]
      exact old.named d conn found
    · exact old.named d a there
  · intro label d
    dsimp only
    rw [entries,old.listed]
    by_cases same : d = c
    · subst same
      simp only [Function.update_self,found,Option.some.injEq,exists_eq_left',name,true_implies]
      exact ⟨fun ⟨⟨label,_⟩,listed⟩ => ⟨label,listed⟩,fun ⟨label,listed⟩ => ⟨⟨label,kept listed⟩,listed⟩⟩
    · simp [same]

-- The task in hand finds its connection at its stage.
theorem in_hand (old : Lives s stage (some task)) : ∃ conn, s.conns task.conn = some conn ∧
    stage task.conn = task.stage ∧ Fits conn task.stage ∧ Lived task.conn (s.log.filter (·.conn = task.conn)) task.stage := by
  obtain ⟨place,due⟩ := old.errands.held task rfl
  obtain ⟨conn,found,right⟩ := Option.bind_eq_some_iff.mp due
  have here := errand_stage right
  refine ⟨conn,found,here,?_,?_⟩
  · rw [← here]
    exact old.fits task.conn conn found
  · rw [← here]
    exact old.lived task.conn conn found

-- Its next one, if any, takes its place.
theorem follow (old : Lives s stage (some task)) {after : Stage} (place : Loop) (new : Option Task)
    (next_step : errand s.loop task.conn next after = new.map (Prod.mk place)) : Errands Task.conn s.waiting
      (fun other => if other = task.conn then errand s.loop task.conn next after else due s.loop s.conns stage other) new := by
  refine old.errands.change task.conn place ?_ ?_ ?_ ?_ ?_
  · rintro _ ⟨⟩
    rfl
  · exact fun place other mine => old.errands.hand_absent mine
  · exact fun other apart => if_neg apart
  · rw [if_pos rfl,next_step]
  · rintro other rfl
    exact errand_conn next_step

-- A connection with no step due gets one.
theorem begin (old : Lives s stage none) (idle : due s.loop s.conns stage c = none) {after : Stage} (place : Loop)
    (right : errand s.loop c next after = some (place,task)) : Errands Task.conn s.waiting
      (fun other => if other = c then errand s.loop c next after else due s.loop s.conns stage other) (some task) := by
  refine old.errands.change c place ?_ ?_ ?_ ?_ ?_
  · intro _ absent
    cases absent
  · exact fun place other mine => old.errands.idle_absent idle mine
  · exact fun other apart => if_neg apart
  · rw [if_pos rfl,right]
    rfl
  · rintro _ ⟨⟩
    exact errand_conn right

theorem connectEstablished (old : Lives s stage (some (.connectEstablished c))) :
    Lives (s.connectEstablished c) (Function.update stage c .up) none := by
  obtain ⟨conn,found,here,fits,lived⟩ := old.in_hand
  dsimp only [Task.conn,Task.stage] at found here fits lived
  have calm : (s.fault || conn.state != .kConnecting) = s.fault := by
    rw [fits.1]
    exact Bool.or_false _
  unfold TcpServer.connectEstablished
  rw [deref_some found,calm]
  refine old.advance found {conn with state := .kConnected,added := true} rfl rfl ?_ ?_ lived.established ?_ ?_
    (old.follow s.loop none rfl)
  · simp [Act.conn]
  · exact ⟨.inl rfl,rfl,fits.2.2⟩
  · rw [here]
    exact fun _ => rfl
  · simp [Stage.listed]

theorem connectDestroyed (old : Lives s stage (some (.connectDestroyed c))) :
    Lives (s.connectDestroyed c) (Function.update stage c .destroyed) none := by
  obtain ⟨conn,found,here,fits,lived⟩ := old.in_hand
  dsimp only [Task.conn,Task.stage] at found here fits lived
  unfold TcpServer.connectDestroyed
  rw [deref_some found]
  refine old.advance found {conn with state := if conn.state = .kConnected then .kDisconnected else conn.state}
    rfl rfl ?_ ?_ lived.destroyed ?_ ?_ (old.follow s.loop none rfl)
  · simp [Act.conn]
  · refine ⟨?_,fits.2⟩
    rw [fits.1]
    rfl
  · exact fun absent => absurd absent (by decide)
  · intro label d
    rw [old.listed]
    refine (and_iff_left_of_imp ?_).symm
    rintro ⟨_,_,_,listed⟩ rfl
    rw [here] at listed
    exact listed

theorem queueInLoop (old : Lives s stage (some task)) (here : due s.loop s.conns stage task.conn = some (loop,task)) :
    Lives (s.queueInLoop loop task) stage none := by
  have more : OneMore s.waiting (s.queueInLoop loop task).waiting loop task := by
    refine OneMore.of_perm (fun p apart => ?_) ?_ <;> unfold waiting TcpServer.queueInLoop
    · dsimp only
      rw [Function.update_of_ne apart]
    · dsimp only
      rw [Function.update_self,← List.append_assoc]
      exact List.perm_append_singleton _ _
  exact ⟨old.errands.post here more,old.fits,old.lived,old.fresh,old.known,old.named,old.nextId,old.listed,old.sound⟩

theorem removeConnectionInLoop (old : Lives s stage (some (.removeConnectionInLoop c))) :
    Lives (s.removeConnectionInLoop c) (Function.update stage c .removed) none := by
  obtain ⟨conn,found,here,fits,lived⟩ := old.in_hand
  dsimp only [Task.conn,Task.stage] at found here fits lived
  have entry : s.connections conn.name = some c := (old.listed _ _).mpr ⟨conn,found,rfl,by rw [here]; rfl⟩
  have unchanged : Function.update s.conns c (some conn) = s.conns := by
    rw [← found]
    exact Function.update_eq_self c s.conns
  have erased : Lives {s with
      connections := Function.update s.connections conn.name none
      log := s.log ++ [.removed c (some c)]} (Function.update stage c .removed) (some (.connectDestroyed c)) := by
    rw [← unchanged]
    refine old.advance found conn rfl rfl ?_ fits lived.removed ?_ ?_ (old.follow conn.loop _ rfl)
    · simp [Act.conn]
    · exact fun absent => absurd absent (by decide)
    · intro label d
      by_cases same : label = conn.name
      · subst same
        rw [Function.update_self,entry]
        refine iff_of_false (by simp) ?_
        intro given
        obtain ⟨⟨⟩,kept⟩ := given
        exact absurd (kept rfl) (by decide)
      · rw [Function.update_of_ne same]
        refine (and_iff_left_of_imp ?_).symm
        rintro entered rfl
        obtain ⟨_,there,name,_⟩ := (old.listed _ _).mp entered
        cases found.symm.trans there
        exact absurd name.symm same
  have calm : (s.fault || (1 : Nat) != 1) = s.fault := Bool.or_false _
  unfold TcpServer.removeConnectionInLoop
  rw [deref_some found]
  simp only [entry,Option.isSome_some,if_true,calm]
  refine erased.queueInLoop ?_
  unfold due
  dsimp only [Task.conn]
  rw [found,Function.update_self]
  rfl

-- The first task of a loop that runs its functors is taken in hand.
theorem take {rest pendingFunctors : List Task} (old : Lives s stage none)
    (here : s.tasks loop = ⟨task :: rest,pendingFunctors⟩) :
    Lives {s with tasks := Function.update s.tasks loop ⟨rest,pendingFunctors⟩} stage (some task) := by
  have more : OneMore ({s with tasks := Function.update s.tasks loop ⟨rest,pendingFunctors⟩} : TcpServer Loop).waiting
      s.waiting loop task := by
    refine OneMore.of_perm (fun p apart => ?_) ?_ <;> unfold waiting
    · dsimp only
      rw [Function.update_of_ne apart]
    · dsimp only
      rw [Function.update_self,here]
      exact .refl _
  exact ⟨old.errands.take more,old.fits,old.lived,old.fresh,old.known,old.named,old.nextId,old.listed,old.sound⟩

theorem perform (old : Lives s stage (some task)) : ∃ after, Lives (s.perform task) after none := by
  cases task with
  | connectEstablished c => exact ⟨_,old.connectEstablished⟩
  | removeConnectionInLoop c => exact ⟨_,old.removeConnectionInLoop⟩
  | connectDestroyed c => exact ⟨_,old.connectDestroyed⟩

-- runInLoop runs the task at once or puts it where it is due.
theorem runInLoop (old : Lives s stage (some task)) (due : due s.loop s.conns stage task.conn = some (loop,task)) (here : Loop) :
    ∃ after, Lives (s.runInLoop here loop task) after none := by
  unfold TcpServer.runInLoop
  split
  · exact old.perform
  · exact ⟨_,old.queueInLoop due⟩

theorem accept (old : Lives s stage none) (few : s.accepted + 1 < 2 ^ 31) (ioLoop : Loop)
    (threadPool : EventLoopThreadPool Loop) : Lives {s with
      nextConnId := (s.nextConnId + 1).bmod (2 ^ 32)
      threadPool := threadPool
      conns := Function.update s.conns s.accepted (some ⟨ioLoop,connName s.name s.nextConnId,.kConnecting,false,false⟩)
      accepted := s.accepted + 1
      connections := Function.update s.connections (connName s.name s.nextConnId) (some s.accepted)}
      (Function.update stage s.accepted .waiting) (some (.connectEstablished s.accepted)) := by
  have older : ∀ {c conn}, s.conns c = some conn → c ≠ s.accepted := fun found => Nat.ne_of_lt (old.fresh _ _ found)
  have empty : s.conns s.accepted = none := by
    cases found : s.conns s.accepted with
    | none => rfl
    | some conn => exact absurd rfl (older found)
  have idle : due s.loop s.conns stage s.accepted = none := by
    unfold due
    rw [empty]
    rfl
  refine ⟨?_,?_,?_,?_,?_,?_,?_,?_,old.sound⟩
  · rw [due_update]
    exact old.begin idle ioLoop rfl
  · intro d a there
    rcases Ledger.update_some there with ⟨rfl,rfl⟩ | ⟨apart,there⟩
    · rw [Function.update_self]
      exact ⟨rfl,rfl,rfl⟩
    · rw [Function.update_of_ne apart]
      exact old.fits d a there
  · intro d a there
    dsimp only
    rcases Ledger.update_some there with ⟨rfl,rfl⟩ | ⟨apart,there⟩
    · have none_yet : s.log.filter (·.conn = s.accepted) = [] := by
        refine List.filter_eq_nil_iff.mpr fun act member => ?_
        obtain ⟨_,found⟩ := Option.isSome_iff_exists.mp (old.known act member)
        simpa using older found
      rw [Function.update_self,none_yet]
      exact .accepted
    · rw [Function.update_of_ne apart]
      exact old.lived d a there
  · intro d a there
    rcases Ledger.update_some there with ⟨rfl,_⟩ | ⟨_,there⟩
    · exact Nat.lt_succ_self _
    · exact Nat.lt_succ_of_lt (old.fresh d a there)
  · intro act member
    obtain ⟨_,found⟩ := Option.isSome_iff_exists.mp (old.known act member)
    dsimp only
    rw [Function.update_of_ne (older found)]
    exact old.known act member
  · intro d a there
    rcases Ledger.update_some there with ⟨rfl,rfl⟩ | ⟨_,there⟩
    · rw [← old.nextId]
    · exact old.named d a there
  · dsimp only
    rw [old.nextId,connId_succ]
  · intro label d
    dsimp only
    by_cases mine : d = s.accepted
    · subst mine
      rw [Function.update_self,Function.update_self]
      by_cases same : label = connName s.name s.nextConnId
      · simp [same,Stage.listed]
      · rw [Function.update_of_ne same,old.listed,empty]
        simp [Ne.symm same]
    · rw [Function.update_of_ne mine,Function.update_of_ne mine]
      by_cases same : label = connName s.name s.nextConnId
      · rw [same,Function.update_self]
        refine iff_of_false (fun taken => mine (Option.some.inj taken).symm) ?_
        intro given
        obtain ⟨a,there,name,_⟩ := given
        have below := old.fresh d a there
        rw [old.named d a there,old.nextId] at name
        exact mine (connName_injective (by omega) few name)
      · rw [Function.update_of_ne same,old.listed]

theorem newConnection (old : Lives s stage none) (few : s.accepted + 1 < 2 ^ 31) :
    ∃ after, Lives s.newConnection after none := by
  have accepted := old.accept few s.threadPool.getNextLoop.1 s.threadPool.getNextLoop.2
  unfold TcpServer.newConnection
  refine accepted.runInLoop ?_ s.loop
  rw [due_update]
  dsimp only [Task.conn]
  rw [if_pos rfl]
  unfold errand
  rfl

theorem handleClose (old : Lives s stage none) (able : s.allowed (.handleClose c) = true) :
    ∃ after, Lives (s.handleClose c) after none := by
  obtain ⟨conn,found,free⟩ := (Option.any_eq_true _ _).mp able
  simp only [Bool.and_eq_true,Bool.not_eq_true'] at free
  have fits := old.fits c conn found
  have here : stage c = .up := by
    cases now : stage c <;> rw [now] at fits <;> first | rfl | simp [Fits,free] at fits
  have lived := old.lived c conn found
  rw [here] at fits lived
  have calm : (s.fault || !(conn.state == .kConnected || conn.state == .kDisconnecting)) = s.fault := by
    rcases fits.1 with state | state <;> rw [state] <;> exact Bool.or_false _
  have idle : due s.loop s.conns stage c = none := by
    unfold due
    rw [found,here]
    rfl
  have closed : Lives {s with
      conns := Function.update s.conns c (some {conn with state := .kDisconnected,closed := true})}
      (Function.update stage c .closing) (some (.removeConnectionInLoop c)) := by
    rw [← List.append_nil s.log]
    have lived_on := lived.closing
    rw [← List.append_nil (List.filter _ _)] at lived_on
    refine old.advance found {conn with state := .kDisconnected,closed := true} rfl rfl ?_ ⟨rfl,fits.2.1,rfl⟩ lived_on ?_ ?_
      (old.begin idle s.loop rfl)
    · intro _ absent
      cases absent
    · rw [here]
      exact fun _ => rfl
    · simp [Stage.listed]
  unfold TcpServer.handleClose removeConnection
  rw [deref_some found,calm]
  refine closed.runInLoop ?_ conn.loop
  unfold due
  dsimp only [Task.conn]
  rw [Function.update_self,Function.update_self]
  rfl

-- A connection that stays where it is on its course.
theorem stay (old : Lives s stage none) (found : s.conns c = some conn) (next : Conn Loop) (loop : next.loop = conn.loop)
    (name : next.name = conn.name) (acts : List Act) (about : ∀ act ∈ acts, act.conn = c) (fits : Fits next (stage c))
    (lived : Lived c (s.log.filter (·.conn = c) ++ acts) (stage c)) :
    Lives {s with conns := Function.update s.conns c (some next),log := s.log ++ acts}
      (Function.update stage c (stage c)) none := by
  have same : (fun other => if other = c then errand s.loop c next (stage c) else due s.loop s.conns stage other) =
      due s.loop s.conns stage := by
    funext other
    split <;> rename_i equal
    · unfold due errand
      rw [equal,found,loop]
      rfl
    · rfl
  refine old.advance found next loop name about fits lived id ?_ ?_
  · intro label d
    refine (and_iff_left_of_imp ?_).symm
    rintro entered rfl
    obtain ⟨_,_,_,listed⟩ := (old.listed _ _).mp entered
    exact listed
  · rw [same]
    exact old.errands

theorem handleEvent (old : Lives s stage none) (able : s.allowed (.handleEvent c) = true) :
    ∃ after, Lives {s with log := s.log ++ [.handled c]} after none := by
  obtain ⟨conn,found,added⟩ := (Option.any_eq_true _ _).mp able
  have fits := old.fits c conn found
  have past : stage c ≠ .waiting := by
    intro here
    rw [here] at fits
    cases added.symm.trans fits.2.1
  have unchanged : Function.update s.conns c (some conn) = s.conns := by
    rw [← found]
    exact Function.update_eq_self c s.conns
  have stayed := old.stay found conn rfl rfl [.handled c] (by simp [Act.conn]) fits
    ((old.lived c conn found).handled past)
  rw [unchanged] at stayed
  exact ⟨_,stayed⟩

theorem shutdown (old : Lives s stage none) (able : s.allowed (.shutdown c) = true) :
    ∃ after, Lives (s.shutdown c) after none := by
  obtain ⟨conn,found⟩ := Option.isSome_iff_exists.mp able
  have fits := old.fits c conn found
  have lived := old.lived c conn found
  rw [← List.append_nil (List.filter _ _)] at lived
  let next : Conn Loop := {conn with state := if conn.state = .kConnected then .kDisconnecting else conn.state}
  have fits_on : Fits next (stage c) := by
    cases here : stage c <;> rw [here] at fits <;> refine ⟨?_,fits.2⟩
    case up =>
      dsimp only [next]
      split
      · exact .inr rfl
      · exact fits.1
    all_goals
      dsimp only [next]
      rw [fits.1]
      rfl
  have stayed := old.stay found next rfl rfl [] (fun _ absent => (by cases absent)) fits_on lived
  rw [List.append_nil] at stayed
  unfold TcpServer.shutdown
  rw [deref_some found]
  exact ⟨_,stayed⟩

theorem swapFunctors (old : Lives s stage none) (able : s.allowed (.swap loop) = true) :
    Lives (s.swapFunctors loop) stage none := by
  have empty : (s.tasks loop).functors = [] := List.isEmpty_iff.mp able
  have same : ∀ place, ((s.swapFunctors loop).waiting place).Perm (s.waiting place) := by
    intro place
    unfold waiting TcpServer.swapFunctors
    by_cases here : place = loop
    · simp [here,empty]
    · simp [here]
  exact ⟨old.errands.perm same,old.fits,old.lived,old.fresh,old.known,old.named,old.nextId,old.listed,old.sound⟩

theorem runFunctor (old : Lives s stage none) (loop : Loop) :
    ∃ after, Lives (s.runFunctor loop) after none := by
  unfold TcpServer.runFunctor
  split
  · rename_i here
    exact (old.take here).perform
  · exact ⟨stage,old⟩

theorem step (old : Lives s stage none) (label : Label Loop) (able : s.allowed label = true)
    (few : (s.apply label).accepted < 2 ^ 31) : ∃ after, Lives (s.apply label) after none := by
  cases label with
  | newConnection => exact old.newConnection (newConnection_accepted s ▸ few)
  | handleEvent c => exact old.handleEvent able
  | handleClose c => exact old.handleClose able
  | shutdown c => exact old.shutdown able
  | swap loop => exact ⟨stage,old.swapFunctors able⟩
  | runFunctor loop => exact old.runFunctor loop

end Lives

theorem lives_new (loop : Loop) (name : String) (loops : List Loop) :
    Lives (new loop name loops) (fun _ => .waiting) none := by
  refine ⟨.nothing (fun _ => rfl) fun _ => rfl,?_,?_,?_,?_,?_,(connId_small (by decide)).symm,?_,rfl⟩
  · intro _ _ absent
    cases absent
  · intro _ _ absent
    cases absent
  · intro _ _ absent
    cases absent
  · intro _ absent
    cases absent
  · intro _ _ absent
    cases absent
  · intro label c
    refine iff_of_false nofun ?_
    intro given
    obtain ⟨_,absent,_⟩ := given
    cases absent

theorem kept : (machine : Machine (TcpServer Loop) (Label Loop)).Preserves (fun _ _ => True)
    fun s => s.accepted < 2 ^ 31 → ∃ stage, Lives s stage none := by
  refine Machine.guarded_preserves ?_ ?_
  · intro _ given _
    obtain ⟨loop,name,loops,rfl⟩ := given
    exact ⟨_,lives_new loop name loops⟩
  · intro s label old able few
    obtain ⟨stage,lives⟩ := old (Nat.lt_of_le_of_lt (accepted_le s label) few)
    exact lives.step label able few

namespace Lives

theorem of_mem (old : Lives s stage none) {act : Act} (member : act ∈ s.log) :
    Lived act.conn (s.log.filter (·.conn = act.conn)) (stage act.conn) := by
  obtain ⟨conn,found⟩ := Option.isSome_iff_exists.mp (old.known act member)
  exact old.lived act.conn conn found

-- The log keeps the order of the course of each connection.
theorem log_follows (old : Lives s stage none) {before : List Act} {act : Act} (found : before ++ [act] <+: s.log) :
    Follows (before.filter (·.conn = act.conn)) act := by
  have lived := old.of_mem (found.subset (List.mem_append_right _ List.mem_cons_self))
  have mine := found.filter (fun a : Act => decide (a.conn = act.conn))
  have last : [act].filter (fun a : Act => decide (a.conn = act.conn)) = [act] := by simp
  rw [List.filter_append,last] at mine
  exact lived.follows mine

theorem removed_own (old : Lives s stage none) {erased : Option Nat} (member : .removed c erased ∈ s.log) :
    erased = some c := by
  obtain ⟨before,after,same⟩ := List.append_of_mem member
  have found : before ++ [.removed c erased] <+: s.log := ⟨after,by rw [same]; simp⟩
  exact (old.log_follows found).1

omit [DecidableEq Loop] in
theorem count_mine {act : Act} (mine : act.conn = c) : (s.log.filter (·.conn = c)).count act = s.log.count act :=
  List.count_filter (decide_eq_true mine)

theorem count_le_one (old : Lives s stage none) {act : Act}
    (once : Lived act.conn (s.log.filter (·.conn = act.conn)) (stage act.conn) →
      (s.log.filter (·.conn = act.conn)).count act ≤ 1) : s.log.count act ≤ 1 := by
  by_cases member : act ∈ s.log
  · exact Nat.le_trans (Nat.le_of_eq (count_mine rfl).symm) (once (old.of_mem member))
  · rw [List.count_eq_zero.mpr member]
    exact Nat.zero_le 1

theorem listed_iff (old : Lives s stage none) (found : s.conns c = some conn) :
    (stage c).listed = true ↔ ∀ erased, .removed c erased ∉ s.log := by
  have counted : s.log.count (.removed c (some c)) = _ := (count_mine rfl).symm.trans (old.lived c conn found).count_removed
  constructor
  · intro listed erased member
    rw [old.removed_own member] at member
    rw [listed] at counted
    exact List.count_eq_zero.mp counted member
  · intro never
    rw [List.count_eq_zero.mpr (never (some c))] at counted
    by_contra unlisted
    rw [if_neg unlisted] at counted
    cases counted

theorem established_once (old : Lives s stage none) (found : s.conns c = some conn) :
    s.log.count (.established c) + (s.waiting conn.loop).count (.connectEstablished c) = 1 := by
  have counted : s.log.count (.established c) = _ := (count_mine rfl).symm.trans (old.lived c conn found).count_established
  have waits := old.errands.waits conn.loop (.connectEstablished c)
  simp only [due,Task.conn,found,Option.bind_some] at waits
  rw [counted,waits]
  cases stage c <;> simp [errand]

end Lives

-- connections_ has the connections whose removeConnectionInLoop has not run,
-- each under its own name, and the steps of each come once and in order.
theorem connections_follow_their_course (path : machine.Reached s) (few : s.accepted < 2 ^ 31) :
    s.fault = false ∧
    (∀ c d conn other, s.conns c = some conn → s.conns d = some other → conn.name = other.name → c = d) ∧
    (∀ name c, s.connections name = some c ↔
      (∃ conn, s.conns c = some conn ∧ conn.name = name) ∧ ∀ erased, .removed c erased ∉ s.log) ∧
    (∀ c erased, .removed c erased ∈ s.log → erased = some c) ∧
    (∀ c, s.log.count (.removed c (some c)) ≤ 1) ∧
    (∀ c conn, s.conns c = some conn →
      s.log.count (.established c) + (s.waiting conn.loop).count (.connectEstablished c) = 1) ∧
    (∀ c before, before ++ [.handled c] <+: s.log → .established c ∈ before) ∧
    (∀ c, s.log.count (.destroyed c) ≤ 1) ∧
    (∀ c before, before ++ [.destroyed c] <+: s.log → .established c ∈ before ∧ .removed c (some c) ∈ before) := by
  obtain ⟨stage,lives⟩ := kept.reached path few
  refine ⟨lives.sound,?_,?_,?_,?_,?_,?_,?_,?_⟩
  · intro c d conn other found there name
    have below := lives.fresh c conn found
    have below_other := lives.fresh d other there
    rw [lives.named c conn found,lives.named d other there] at name
    exact connName_injective (by omega) (by omega) name
  · intro name c
    rw [lives.listed]
    constructor
    · intro given
      obtain ⟨conn,found,same,listed⟩ := given
      exact ⟨⟨conn,found,same⟩,(lives.listed_iff found).mp listed⟩
    · intro given
      obtain ⟨⟨conn,found,same⟩,never⟩ := given
      exact ⟨conn,found,same,(lives.listed_iff found).mpr never⟩
  · exact fun c erased member => lives.removed_own member
  · intro c
    refine lives.count_le_one fun lived => Nat.le_trans (Nat.le_of_eq lived.count_removed) ?_
    split <;> decide
  · exact fun c conn found => lives.established_once found
  · intro c before found
    exact (List.mem_filter.mp (lives.log_follows found)).1
  · intro c
    refine lives.count_le_one fun lived => Nat.le_trans (Nat.le_of_eq lived.count_destroyed) ?_
    split <;> decide
  · intro c before found
    obtain ⟨established,removed⟩ := lives.log_follows found
    exact ⟨(List.mem_filter.mp established).1,(List.mem_filter.mp removed).1⟩

-- Two I/O loops: the first connection is closed, the second is not.
def serving : List (Label Nat) :=
  [.newConnection,.newConnection,.swap 1,.runFunctor 1,.handleEvent 0,.handleClose 0,.swap 0,.runFunctor 0,
    .swap 1,.runFunctor 1]

theorem serving_follows : ∃ s, machine.run (new 0 "echo" [1,2]) serving = some s ∧
    s.log = [.established 0,.handled 0,.removed 0 (some 0),.destroyed 0] ∧ s.connections "echo#2" = some 1 ∧
    s.fault = false ∧ (∀ name c, s.connections name = some c ↔
      (∃ conn, s.conns c = some conn ∧ conn.name = name) ∧ ∀ erased, .removed c erased ∉ s.log) := by
  refine ⟨_,rfl,rfl,rfl,?_⟩
  obtain ⟨sound,_,listed,_⟩ := connections_follow_their_course
    (@Machine.Reached.run _ _ machine (new 0 "echo" [1,2]) serving _ (.start ⟨_,_,_,rfl⟩) rfl) (by decide)
  exact ⟨sound,listed⟩

end NewMuduo.TcpServer
