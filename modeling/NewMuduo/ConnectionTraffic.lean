import NewMuduo.ConnectionDisconnect

namespace NewMuduo

-- Messages and the threads that sent them, none being the loop thread.
abbrev Sent (Tid : Type) := List (Option Tid × List UInt8)

def messagesOf {Tid : Type} [DecidableEq Tid] (who : Option Tid) (sent : Sent Tid) : List (List UInt8) :=
  (sent.filter (·.1 = who)).map (·.2)

def bytesOf {Tid : Type} (sent : Sent Tid) : List UInt8 := (sent.map (·.2)).flatten

-- The send that a thread is about to post.
def Posted.message : Posted → List (List UInt8)
  | .sendInLoop message => [message]
  | _ => []

def Member.message : Member → List (List UInt8)
  | .sets cb | .queues cb => cb.message
  | _ => []

-- A connection and what goes through it: the sends and the shutdowns that have
-- found kConnected, the messages in the order in which sendInLoop took them, and
-- these with the bytes that the kernel had at each SHUT_WR.
structure Traffic (Tid : Type) where
  threads : ConnThreads Tid
  sent : Sent Tid
  closers : List (Option Tid)
  order : Sent Tid
  issues : List (Sent Tid × List UInt8)

namespace ConnThreads
variable {Tid : Type}

def sends (s : ConnThreads Tid) : Label Tid → Sent Tid
  | .loop (.user (.send message _)) => if s.life.loop.conn.state = .kConnected then [(none,message)] else []
  | .call t (.send message) => if s.life.loop.conn.state = .kConnected then [(some t,message)] else []
  | _ => []

def shuts (s : ConnThreads Tid) : Label Tid → List (Option Tid)
  | .loop (.user .shutdown) => if s.life.loop.conn.state = .kConnected then [none] else []
  | .call t .shutdown => if s.life.loop.conn.state = .kConnected then [some t] else []
  | _ => []

-- Whose message the step hands to sendInLoop.
def sender (s : ConnThreads Tid) : Label Tid → Option Tid
  | .runFunctor _ => match s.turns.head? with
    | some (.sendInLoop t _) => some t
    | _ => none
  | _ => none

variable [DecidableEq Tid]

def queued (t : Tid) (turns : List (Turn Tid)) : List (List UInt8) :=
  turns.filterMap fun
    | .sendInLoop other message => if other = t then some message else none
    | _ => none

-- What a thread has sent and sendInLoop has not taken.
def waiting (s : ConnThreads Tid) : Option Tid → List (List UInt8)
  | none => []
  | some t => queued t s.turns ++ (s.members t).message

-- Nothing closes the connection, and writes take data or would block.
def Unbroken : ConnThreads Tid → Label Tid → Prop := OnLoop fun w label =>
  ¬w.entersHandleClose label ∧ match label with
    | .user (.send _ result) | .user (.sendInLoop _ result) => result.write.goesOn
    | .frame (.write result) => result.goesOn
    | _ => True

theorem queued_append (t : Tid) (turns more : List (Turn Tid)) :
    queued t (turns ++ more) = queued t turns ++ queued t more := List.filterMap_append

theorem queued_functors (t : Tid) (n : Nat) : queued t (List.replicate n .functor) = [] := by
  induction n with
  | zero => rfl
  | succ n ih => rw [List.replicate_succ]; exact ih

theorem waits_queued (s : ConnThreads Tid) (t : Tid) (turns : List (Turn Tid)) (life : ConnLoop.Life) :
    queued t (s.waits turns life).turns = queued t turns := by
  unfold waits
  rw [queued_append,queued_functors,List.append_nil]

omit [DecidableEq Tid] in
theorem push_members (s : ConnThreads Tid) (t : Tid) (cb : Posted) : (s.push t cb).members = s.members := by
  cases cb with
  | sendInLoop message => rfl
  | shutdownInLoop => rfl
  | forceCloseInLoop => rfl

theorem waits_waiting (s : ConnThreads Tid) (t : Tid) (turns : List (Turn Tid)) (life : ConnLoop.Life) :
    (s.waits turns life).waiting (some t) = queued t turns ++ (s.members t).message :=
  congrArg (· ++ (s.members t).message) (waits_queued s t turns life)

theorem moves_waiting_self (s : ConnThreads Tid) (t : Tid) (member : Member) :
    (s.moves t member).waiting (some t) = queued t s.turns ++ member.message := by
  simp [waiting,show (s.moves t member).turns = s.turns from rfl]

theorem moves_waiting_other {who : Option Tid} (s : ConnThreads Tid) (apart : who ≠ some t) (member : Member) :
    (s.moves t member).waiting who = s.waiting who := by
  cases who with
  | none => rfl
  | some other =>
    have differ : other ≠ t := fun same => apart (congrArg some same)
    simp [waiting,moves_other s differ,show (s.moves t member).turns = s.turns from rfl]

end ConnThreads

section messages
variable {Tid : Type} [DecidableEq Tid] {who other : Option Tid}

theorem messagesOf_append (sent more : Sent Tid) : messagesOf who (sent ++ more) = messagesOf who sent ++ messagesOf who more := by
  simp [messagesOf]

theorem messagesOf_same (messages : List (List UInt8)) : messagesOf who (messages.map (who,·)) = messages := by
  induction messages with
  | nil => rfl
  | cons message rest ih => simpa [messagesOf] using ih

theorem messagesOf_other (apart : other ≠ who) (messages : List (List UInt8)) :
    messagesOf who (messages.map (other,·)) = [] := by
  simp [messagesOf,apart]

end messages

namespace Traffic
open ConnThreads
variable {Tid : Type} [DecidableEq Tid]

def record (s : Traffic Tid) (label : Label Tid) (after : ConnThreads Tid) : Traffic Tid :=
  let taken := after.life.accepted.drop s.threads.life.accepted.length
  let order := s.order ++ taken.map (s.threads.sender label,·)
  let issues := if s.threads.life.loop.shutdowns.length < after.life.loop.shutdowns.length then
    s.issues ++ [(order,after.life.loop.taken)] else s.issues
  ⟨after,s.sent ++ s.threads.sends label,s.closers ++ s.threads.shuts label,order,issues⟩

def machine (admits : BitVec 32 → Bool) : Machine (Traffic Tid) (Label Tid) where
  start s := (ConnThreads.machine admits).start s.threads ∧ s = ⟨s.threads,[],[],[],[]⟩
  next s label := (ConnThreads.next admits s.threads label).map (s.record label)

-- All bytes that a thread has sent are among those that the kernel has.
def Written (who : Option Tid) (sent order : Sent Tid) (taken : List UInt8) : Prop :=
  ∃ done, done <+: order ∧ bytesOf done <+: taken ∧ (messagesOf who done).flatten = (messagesOf who sent).flatten

-- SHUT_WR comes after all that was sent by the threads that shut down.
def Graceful (s : Traffic Tid) : Prop :=
  ∀ issue ∈ s.issues, ∀ who ∈ s.closers, Written who s.sent issue.1 issue.2

-- What has been sent has been taken or waits, in the order of its thread.
structure Counted (fd : Nat) (s : Traffic Tid) : Prop where
  settled : ConnLoop.Settled fd s.threads.life
  fresh : s.threads.life.loop.handleCloses = []
  accepted : s.order.map (·.2) = s.threads.life.accepted
  balance : ∀ who, messagesOf who s.sent = messagesOf who s.order ++ s.threads.waiting who

variable {s : Traffic Tid} {after : ConnThreads Tid} {fd : Nat}

omit [DecidableEq Tid] in
theorem record_order (label : Label Tid) (grown : after.life.accepted = s.threads.life.accepted ++ messages) :
    (s.record label after).order = s.order ++ messages.map (s.threads.sender label,·) := by
  unfold record
  dsimp only
  rw [grown,List.drop_left]

-- One step: what it takes comes before what still waits.
theorem Counted.advance (old : Counted fd s) (label : Label Tid) (settled : ConnLoop.Settled fd after.life)
    (fresh : after.life.loop.handleCloses = []) (grown : after.life.accepted = s.threads.life.accepted ++ messages)
    (flow : ∀ who, s.threads.waiting who ++ messagesOf who (s.threads.sends label) =
      messagesOf who (messages.map (s.threads.sender label,·)) ++ after.waiting who) :
    Counted fd (s.record label after) := by
  have order := record_order label grown
  refine ⟨settled,fresh,?_,fun who => ?_⟩
  · rw [order,List.map_append,old.accepted,List.map_map]
    exact (congrArg (s.threads.life.accepted ++ ·) (List.map_id messages)).trans grown.symm
  · rw [order,messagesOf_append,List.append_assoc]
    have sent : (s.record label after).sent = s.sent ++ s.threads.sends label := rfl
    rw [sent,messagesOf_append,old.balance who,List.append_assoc]
    exact congrArg (messagesOf who s.order ++ ·) (flow who)

omit [DecidableEq Tid] in
theorem own_accepts {threads : ConnThreads Tid} (alone : own label = true) (unbroken : threads.Unbroken (.loop label)) :
    threads.sends (.loop label) = (threads.life.accepts label).map (none,·) := by
  match label with
  | .user (.send message result) =>
    have accepts := ConnLoop.accepts_goesOn (w := threads.life.loop) unbroken.2
    simp only [sends,ConnLoop.Life.accepts,ConnLoop.Call.accepted,accepts,and_true]
    split
    · rfl
    · rfl
  | .user (.sendInLoop _ _) => cases alone
  | .user .shutdownInLoop => cases alone
  | .user .shutdown | .user .forceClose | .user .startRead | .user .stopRead | .user (.inputBuffer _) => rfl
  | .epoll_wait _ | .handleEvent | .frame _ | .removeConnectionInLoop | .functor => rfl

theorem Counted.loop (old : Counted fd s) (alone : own label = true) (unbroken : s.threads.Unbroken (.loop label))
    (ran : ConnLoop.next ConnLoop.hangsUpAlone s.threads.life label = some later) :
    Counted fd (s.record (.loop label) (s.threads.waits s.threads.turns later)) := by
  obtain ⟨settled,fresh⟩ := old.settled.goes_on old.fresh unbroken.1 ran
  refine old.advance _ settled fresh (ConnLoop.next_accepted ran) fun who => ?_
  rw [own_accepts alone unbroken]
  cases who with
  | none => simp [waiting,sender]
  | some t =>
    rw [messagesOf_other (by simp),messagesOf_other (by simp [sender]),List.append_nil,List.nil_append]
    exact (waits_waiting s.threads t _ later).symm

-- A turn that is not a send takes nothing.
theorem Counted.runFunctor (old : Counted fd s) (found : s.threads.turns = turn :: rest) (unbroken : s.threads.Unbroken (.runFunctor result))
    (ran : ConnLoop.next ConnLoop.hangsUpAlone s.threads.life (turn.label result) = some later) :
    Counted fd (s.record (.runFunctor result) (s.threads.waits rest later)) := by
  have goes := unbroken turn (congrArg List.head? found)
  obtain ⟨settled,fresh⟩ := old.settled.goes_on old.fresh goes.1 ran
  refine old.advance _ settled fresh (ConnLoop.next_accepted ran) fun who => ?_
  have before : ∀ t, s.threads.waiting (some t) = queued t (turn :: rest) ++ (s.threads.members t).message := by
    intro t
    rw [← found]
    rfl
  have quiet : messagesOf who (s.threads.sends (.runFunctor result)) = [] := rfl
  rw [quiet,List.append_nil]
  cases turn with
  | sendInLoop t message =>
    have live := (old.settled.1.still_open old.fresh).not_disconnected
    have accepts := ConnLoop.accepts_goesOn (w := s.threads.life.loop) goes.2
    have took : s.threads.life.accepts (Turn.label result (.sendInLoop t message)) = [message] := by
      simp [Turn.label,ConnLoop.Life.accepts,ConnLoop.Call.accepted,live,accepts]
    have mine : s.threads.sender (.runFunctor result) = some t := by simp [sender,found]
    rw [took,mine]
    cases who with
    | none => rw [messagesOf_other (by simp)]; rfl
    | some other =>
      rw [waits_waiting,before]
      by_cases same : t = other
      · subst same
        rw [messagesOf_same]
        simp [queued]
      · rw [messagesOf_other (by simp [same])]
        simp [queued,same]
  | functor =>
    cases who with
    | none => rfl
    | some other => rw [waits_waiting,before]; rfl
  | shutdownInLoop =>
    cases who with
    | none => rfl
    | some other => rw [waits_waiting,before]; rfl

omit [DecidableEq Tid] in
theorem same_accepted (same : after.life.accepted = s.threads.life.accepted) :
    after.life.accepted = s.threads.life.accepted ++ [] := same.trans (List.append_nil _).symm

theorem Counted.call (old : Counted fd s) (here : s.threads.members t = .idle) (method : Method) :
    Counted fd (s.record (.call t method) (s.threads.moves t (method.first s.threads.life.loop.conn.state))) := by
  refine old.advance _ old.settled old.fresh (same_accepted rfl) fun who => ?_
  have nothing : messagesOf who ((@List.nil (List UInt8)).map (s.threads.sender (.call t method),·)) = [] := rfl
  rw [nothing,List.nil_append]
  have sent : s.threads.sends (.call t method) = (method.first s.threads.life.loop.conn.state).message.map (some t,·) := by
    cases method with
    | send message =>
      simp only [sends,Method.first]
      split
      · rfl
      · rfl
    | shutdown =>
      simp only [sends,Method.first]
      split
      · rfl
      · rfl
    | forceClose =>
      simp only [sends,Method.first]
      split
      · rfl
      · rfl
  rw [sent]
  by_cases same : who = some t
  · subst same
    rw [messagesOf_same,moves_waiting_self]
    simp [waiting,here,Member.message]
  · rw [messagesOf_other (Ne.symm same),moves_waiting_other _ same,List.append_nil]

-- A thread goes on with what it was about to do.
theorem Counted.moves {later : ConnLoop.Life} {member : Member} (old : Counted fd s) (label : Label Tid)
    (silent : s.threads.sends label = []) (settled : ConnLoop.Settled fd later) (fresh : later.loop.handleCloses = [])
    (same : later.accepted = s.threads.life.accepted) (kept : member.message = (s.threads.members t).message) :
    Counted fd (s.record label ({s.threads with life := later}.moves t member)) := by
  refine old.advance _ settled fresh (same_accepted same) fun who => ?_
  rw [silent]
  refine (List.append_nil _).trans ?_
  by_cases mine : who = some t
  · subst mine
    rw [moves_waiting_self,kept]
    rfl
  · rw [moves_waiting_other _ mine]
    rfl

theorem Counted.queueInLoop (old : Counted fd s) (here : s.threads.members t = .queues cb) :
    Counted fd (s.record (.queueInLoop t) ((s.threads.push t cb).moves t .idle)) := by
  have accepted : (s.threads.push t cb).life.accepted = s.threads.life.accepted := by
    cases cb with
    | sendInLoop message => rfl
    | shutdownInLoop => rfl
    | forceCloseInLoop => rfl
  have members := push_members s.threads t cb
  have fresh : (s.threads.push t cb).life.loop.handleCloses = s.threads.life.loop.handleCloses := by
    cases cb with
    | sendInLoop message => rfl
    | shutdownInLoop => rfl
    | forceCloseInLoop => rfl
  have turns : ∀ other, queued other (s.threads.push t cb).turns =
      queued other s.threads.turns ++ if t = other then cb.message else [] := by
    intro other
    cases cb with
    | sendInLoop message =>
      refine (queued_append other _ _).trans ?_
      by_cases same : t = other
      · simp [queued,same,Posted.message]
      · simp [queued,same]
    | shutdownInLoop => exact (queued_append other _ _).trans (by simp [queued,Posted.message])
    | forceCloseInLoop => exact (waits_queued s.threads other _ _).trans (by simp [Posted.message])
  refine old.advance _ (settled_push old.settled t cb) (fresh.trans old.fresh) (same_accepted accepted) fun who => ?_
  refine (List.append_nil _).trans ?_
  cases who with
  | none => rfl
  | some other =>
    by_cases same : t = other
    · subst same
      refine Eq.trans ?_ (moves_waiting_self (s.threads.push t cb) t .idle).symm
      rw [turns,if_pos rfl]
      simp [waiting,here,Member.message]
    · refine Eq.trans ?_ (moves_waiting_other (s.threads.push t cb) (fun equal => same (Option.some.inj equal).symm) .idle).symm
      simp only [waiting]
      rw [turns,if_neg same,List.append_nil,members]

theorem Counted.step (old : Counted fd s) (unbroken : s.threads.Unbroken label)
    (taken : ConnThreads.next ConnLoop.hangsUpAlone s.threads label = some after) : Counted fd (s.record label after) := by
  cases ConnThreads.next_step taken with
  | loop alone ran => exact old.loop alone unbroken ran
  | runFunctor found _ _ ran => exact old.runFunctor found unbroken ran
  | call here => exact old.call here _
  | compare here =>
    refine old.moves _ rfl old.settled old.fresh rfl ?_
    rw [here]
    split
    · rfl
    · rfl
  | setState here =>
    refine old.moves _ rfl (settled_setState old.settled old.fresh) old.fresh rfl ?_
    rw [here]
    rfl
  | queueInLoop here => exact old.queueInLoop here

end Traffic
end NewMuduo
