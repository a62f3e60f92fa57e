import NewMuduo.ConnectionTraffic

namespace NewMuduo

namespace ConnThreads
variable {Tid : Type} {s after : ConnThreads Tid} {closers : List (Option Tid)}

def Left (s : ConnThreads Tid) : Prop := s.life.loop.conn.state ≠ .kConnected

-- A thread that shuts down has no send of its own left to post, and state_ has
-- left kConnected before its shutdownInLoop is in the queue: no send of such a
-- thread comes behind it.
structure Ordered (s : ConnThreads Tid) (closers : List (Option Tid)) : Prop where
  closing : ∀ t, some t ∈ closers → (s.members t).message = [] ∧ (s.members t = .sets .shutdownInLoop ∨ s.Left)
  own : none ∈ closers → s.Left
  posting : ∀ t, s.members t = .queues .shutdownInLoop → s.Left
  posted : Turn.shutdownInLoop ∈ s.turns → s.Left
  behind : s.turns.Pairwise fun first later => first = .shutdownInLoop →
    ∀ t message, later = .sendInLoop t message → some t ∉ closers

theorem Ordered.waits (old : Ordered s closers) (suffix : rest <:+ s.turns) (lasts : s.Left → later.loop.conn.state ≠ .kConnected) :
    Ordered (s.waits rest later) closers := by
  refine ⟨fun t found => ?_,fun found => lasts (old.own found),fun t here => lasts (old.posting t here),fun found => ?_,?_⟩
  · obtain ⟨silent,which⟩ := old.closing t found
    exact ⟨silent,which.imp_right lasts⟩
  · rcases List.mem_append.mp found with inside | new
    · exact lasts (old.posted (suffix.subset inside))
    · cases List.eq_of_mem_replicate new
  · refine List.pairwise_append.mpr ⟨old.behind.sublist suffix.sublist,?_,?_⟩
    · exact List.pairwise_replicate.mpr (.inr fun same => (by cases same))
    · intro first _ later new _ t message same
      rw [List.eq_of_mem_replicate new] at same
      cases same

theorem Ordered.own_closes (old : Ordered s closers) (left : s.Left) : Ordered s (closers ++ [none]) := by
  have before : ∀ {t : Tid}, some t ∈ closers ++ [none] → some t ∈ closers := by
    intro t found
    rcases List.mem_append.mp found with here | new
    · exact here
    · cases List.mem_singleton.mp new
  refine ⟨fun t found => old.closing t (before found),fun _ => left,old.posting,old.posted,?_⟩
  exact old.behind.imp fun apart same t message later found => apart same t message later (before found)

variable [DecidableEq Tid]

-- One thread moves; it has no send to post if it is shutting down.
theorem Ordered.moves {member : Member} (old : Ordered s closers) (t : Tid)
    (closing : some t ∈ closers → member.message = [] ∧ (member = .sets .shutdownInLoop ∨ s.Left))
    (posting : member = .queues .shutdownInLoop → s.Left) : Ordered (s.moves t member) closers := by
  refine ⟨fun other found => ?_,old.own,fun other here => ?_,old.posted,old.behind⟩
  · by_cases same : other = t
    · subst same
      rw [moves_self]
      exact closing found
    · rw [moves_other s same]
      exact old.closing other found
  · by_cases same : other = t
    · subst same
      rw [moves_self] at here
      exact posting here
    · rw [moves_other s same] at here
      exact old.posting other here

omit [DecidableEq Tid] in
theorem Ordered.left (old : Ordered s closers) (found : some t ∈ closers) (other : s.members t ≠ .sets .shutdownInLoop) : s.Left :=
  (old.closing t found).2.resolve_left other

-- While the connection is kConnected nobody's shutdownInLoop is queued.
theorem Ordered.closes (old : Ordered s closers) (t : Tid) (connected : s.life.loop.conn.state = .kConnected) :
    Ordered (s.moves t (.sets .shutdownInLoop)) (closers ++ [some t]) := by
  have unposted : Turn.shutdownInLoop ∉ s.turns := fun found => old.posted found connected
  refine ⟨fun other found => ?_,fun found => ?_,fun other here => ?_,old.posted,?_⟩
  · by_cases same : other = t
    · subst same
      rw [moves_self]
      exact ⟨rfl,.inl rfl⟩
    · have earlier : some other ∈ closers := by simpa [same] using found
      rw [moves_other s same]
      exact old.closing other earlier
  · exact old.own (by simpa using found)
  · by_cases same : other = t
    · subst same
      rw [moves_self] at here
      cases here
    · rw [moves_other s same] at here
      exact old.posting other here
  · refine List.Pairwise.imp_of_mem (fun {first later} inside _ _ same => ?_) old.behind
    rw [same] at inside
    exact absurd inside unposted

theorem Ordered.call (old : Ordered s closers) (here : s.members t = .idle) (method : Method) :
    Ordered (s.moves t (method.first s.life.loop.conn.state)) (closers ++ s.shuts (.call t method)) := by
  have gone : some t ∈ closers → s.Left := fun found => old.left found (by rw [here]; exact fun same => by cases same)
  cases method with
  | send message =>
    simp only [shuts,List.append_nil,Method.first]
    refine old.moves t (fun found => ?_) ?_
    · rw [if_neg (gone found)]
      exact ⟨rfl,.inr (gone found)⟩
    · split
      · exact fun same => (by cases same)
      · exact fun same => (by cases same)
  | shutdown =>
    simp only [shuts,Method.first]
    split
    · rename_i connected
      exact old.closes t connected
    · rw [List.append_nil]
      exact old.moves t (fun found => ⟨rfl,.inr (gone found)⟩) fun same => by cases same
  | forceClose =>
    simp only [shuts,List.append_nil,Method.first]
    refine old.moves t (fun found => ?_) ?_
    · rw [if_neg (gone found)]
      exact ⟨rfl,.inr (gone found)⟩
    · split
      · exact fun same => (by cases same)
      · exact fun same => (by cases same)

omit [DecidableEq Tid] in
theorem Ordered.push (old : Ordered s closers) (here : s.members t = .queues cb) : Ordered (s.push t cb) closers := by
  cases cb with
  | sendInLoop message =>
    refine ⟨old.closing,old.own,old.posting,fun found => ?_,?_⟩
    · rcases List.mem_append.mp found with inside | new
      · exact old.posted inside
      · cases List.mem_singleton.mp new
    · refine List.pairwise_append.mpr ⟨old.behind,List.pairwise_singleton _ _,?_⟩
      intro first _ later new _ other message same found
      rw [List.mem_singleton.mp new] at same
      cases same
      have silent := (old.closing t found).1
      rw [here] at silent
      cases silent
  | shutdownInLoop =>
    have left := old.posting t here
    refine ⟨old.closing,old.own,old.posting,fun _ => left,?_⟩
    refine List.pairwise_append.mpr ⟨old.behind,List.pairwise_singleton _ _,?_⟩
    intro first _ later new _ other message same
    rw [List.mem_singleton.mp new] at same
    cases same
  | forceCloseInLoop => exact old.waits List.suffix_rfl id

theorem Ordered.queueInLoop (old : Ordered s closers) (here : s.members t = .queues cb) :
    Ordered ((s.push t cb).moves t .idle) closers := by
  have pushed := old.push here
  refine pushed.moves t (fun found => ⟨rfl,.inr (pushed.left found ?_)⟩) fun same => (by cases same)
  rw [push_members,here]
  exact fun same => (by cases same)

theorem Ordered.setState (old : Ordered s closers) (here : s.members t = .sets cb) :
    Ordered ({s with life := {s.life with loop := s.life.loop.setState .kDisconnecting}}.moves t (.queues cb)) closers := by
  have left : Left {s with life := {s.life with loop := s.life.loop.setState .kDisconnecting}} := fun same => (by cases same)
  have marked : Ordered {s with life := {s.life with loop := s.life.loop.setState .kDisconnecting}} closers :=
    ⟨fun t found => ⟨(old.closing t found).1,.inr left⟩,fun _ => left,fun _ _ => left,fun _ => left,old.behind⟩
  refine marked.moves t (fun found => ⟨?_,.inr left⟩) fun _ => left
  have silent := (old.closing t found).1
  rw [here] at silent
  exact silent

theorem Ordered.compare (old : Ordered s closers) (here : s.members t = .compares) :
    Ordered (s.moves t (if s.life.loop.conn.state = .kDisconnecting then .sets .forceCloseInLoop else .idle)) closers := by
  have other : s.members t ≠ .sets .shutdownInLoop := by
    rw [here]
    exact fun same => (by cases same)
  split
  · exact old.moves t (fun found => ⟨rfl,.inr (old.left found other)⟩) fun same => (by cases same)
  · exact old.moves t (fun found => ⟨rfl,.inr (old.left found other)⟩) fun same => (by cases same)

end ConnThreads

namespace Traffic
open ConnThreads
variable {Tid : Type} [DecidableEq Tid] {s : Traffic Tid} {after : ConnThreads Tid} {fd : Nat}

omit [DecidableEq Tid] in
theorem ordered_loop (old : Ordered s.threads s.closers) (lasts : s.threads.Left → later.loop.conn.state ≠ .kConnected)
    (ran : ConnLoop.next ConnLoop.hangsUpAlone s.threads.life label = some later) :
    Ordered (s.threads.waits s.threads.turns later) (s.closers ++ s.threads.shuts (.loop label)) := by
  have waited := old.waits List.suffix_rfl lasts
  match label with
  | .user .shutdown =>
    simp only [shuts]
    split
    · refine waited.own_closes ?_
      cases ConnLoop.next_step ran with
      | user _ _ performed =>
        cases performed
        exact ConnLoop.shutdown_disconnects s.threads.life.loop
    · rwa [List.append_nil]
  | .user (.send _ _) | .user (.sendInLoop _ _) | .user .shutdownInLoop | .user .forceClose => exact (List.append_nil s.closers).symm ▸ waited
  | .user .startRead | .user .stopRead | .user (.inputBuffer _) => exact (List.append_nil s.closers).symm ▸ waited
  | .epoll_wait _ | .handleEvent | .frame _ | .removeConnectionInLoop | .functor =>
    exact (List.append_nil s.closers).symm ▸ waited

theorem ordered_step (counted : Counted fd s) (old : Ordered s.threads s.closers) (unbroken : s.threads.Unbroken label)
    (taken : ConnThreads.next ConnLoop.hangsUpAlone s.threads label = some after) :
    Ordered after (s.closers ++ s.threads.shuts label) := by
  have same : s.closers ++ [] = s.closers := List.append_nil _
  have lasts : ∀ {inner later}, ¬s.threads.life.loop.entersHandleClose inner →
      ConnLoop.next ConnLoop.hangsUpAlone s.threads.life inner = some later →
      s.threads.Left → later.loop.conn.state ≠ .kConnected :=
    fun stays ran => counted.settled.1.stays_disconnecting counted.settled.2 stays ran
  cases ConnThreads.next_step taken with
  | loop _ ran => exact ordered_loop old (lasts unbroken.1 ran) ran
  | runFunctor found _ _ ran =>
    rename_i turn rest _ _ _ _
    have goes := unbroken turn (congrArg List.head? found)
    exact same.symm ▸ old.waits (found ▸ List.suffix_cons turn rest) (lasts goes.1 ran)
  | call here => exact old.call here _
  | compare here => exact same.symm ▸ old.compare here
  | setState here => exact same.symm ▸ old.setState here
  | queueInLoop here => exact same.symm ▸ old.queueInLoop here

-- The two kinds of step that issue SHUT_WR.
inductive Issuing (threads : ConnThreads Tid) : Label Tid → ConnThreads Tid → Prop where
  | loop : own label = true → threads.life.loop.shutsDown label →
      ConnLoop.next ConnLoop.hangsUpAlone threads.life label = some later →
      Issuing threads (.loop label) (threads.waits threads.turns later)
  | turn : threads.turns = .shutdownInLoop :: rest → threads.life.loop.shutsDown (.user .shutdownInLoop) →
      ConnLoop.next ConnLoop.hangsUpAlone threads.life (.user .shutdownInLoop) = some later →
      Issuing threads (.runFunctor result) (threads.waits rest later)

theorem issuing_step (counted : Counted fd s)
    (taken : ConnThreads.next ConnLoop.hangsUpAlone s.threads label = some after)
    (grew : s.threads.life.loop.shutdowns.length < after.life.loop.shutdowns.length) : Issuing s.threads label after := by
  have issues : ∀ {label later}, ConnLoop.next ConnLoop.hangsUpAlone s.threads.life label = some later →
      s.threads.life.loop.shutdowns.length < later.loop.shutdowns.length → s.threads.life.loop.shutsDown label := by
    intro label later ran grew
    by_contra unshut
    have same := (counted.settled.1.next_aside counted.settled.2 ran).shutdowns unshut
    exact absurd (congrArg List.length same) (Nat.ne_of_gt grew)
  cases ConnThreads.next_step taken with
  | loop alone ran => exact .loop alone (issues ran grew) ran
  | runFunctor found _ _ ran =>
    rename_i turn rest _ _ _ _
    cases turn with
    | shutdownInLoop => exact .turn found (issues ran grew) ran
    | functor => exact (issues ran grew).elim
    | sendInLoop t message => exact (issues ran grew).elim
  | call => exact absurd grew (Nat.lt_irrefl _)
  | compare => exact absurd grew (Nat.lt_irrefl _)
  | setState => exact absurd grew (Nat.lt_irrefl _)
  | queueInLoop =>
    rename_i cb _
    cases cb with
    | sendInLoop message => exact absurd grew (Nat.lt_irrefl _)
    | shutdownInLoop => exact absurd grew (Nat.lt_irrefl _)
    | forceCloseInLoop => exact absurd grew (Nat.lt_irrefl _)

omit [DecidableEq Tid] in
theorem Issuing.ran (issuing : Issuing s.threads label after) : ∃ inner, s.threads.life.loop.shutsDown inner ∧
    ConnLoop.next ConnLoop.hangsUpAlone s.threads.life inner = some after.life := by
  cases issuing with
  | loop _ issues ran => exact ⟨_,issues,ran⟩
  | turn _ issues ran => exact ⟨_,issues,ran⟩

omit [DecidableEq Tid] in
theorem Issuing.left (issuing : Issuing s.threads label after) (old : Ordered s.threads s.closers)
    (lasts : s.threads.Left → after.Left) : after.Left := by
  cases issuing with
  | loop alone issues ran =>
    rename_i label later
    match label with
    | .user .shutdown =>
      cases ConnLoop.next_step ran with
      | user _ _ performed =>
        cases performed
        exact ConnLoop.shutdown_disconnects s.threads.life.loop
    | .user .shutdownInLoop => cases alone
    | .frame (.write (.wrote n)) =>
      obtain ⟨_,_,_,_,disconnecting⟩ := issues
      refine lasts fun connected => ?_
      cases disconnecting.symm.trans connected
  | turn found =>
    refine lasts (old.posted ?_)
    rw [found]
    exact List.mem_cons_self

omit [DecidableEq Tid] in
theorem Issuing.closers (issuing : Issuing s.threads label after) (found : some t ∈ s.closers ++ s.threads.shuts label) :
    some t ∈ s.closers := by
  rcases List.mem_append.mp found with here | new
  · exact here
  · cases issuing with
    | turn => cases new
    | loop =>
      rename_i label later _ _ _
      match label with
      | .user .shutdown =>
        simp only [shuts] at new
        split at new
        · cases List.mem_singleton.mp new
        · cases new

-- No step of the loop thread issues SHUT_WR while bytes of a thread that has
-- called shutdown wait in pendingFunctors_.
def Flushed (s : Traffic Tid) : Label Tid → Prop
  | .loop label => s.threads.life.loop.shutsDown label →
      ∀ t, some t ∈ s.closers → (queued t s.threads.turns).flatten = []
  | _ => True

-- When SHUT_WR is issued no byte of a thread that shuts down waits.
theorem Issuing.waiting (issuing : Issuing s.threads label after) (old : Ordered s.threads s.closers)
    (met : s.Flushed label) (found : some t ∈ s.closers) : (after.waiting (some t)).flatten = [] := by
  have silent := (old.closing t found).1
  cases issuing with
  | loop _ issues =>
    have flushed := met issues t found
    rw [waits_waiting,silent,List.append_nil]
    exact flushed
  | turn first =>
    rename_i rest _ _ _ _
    have behind := old.behind
    rw [first] at behind
    have none : queued t rest = [] := by
      refine List.filterMap_eq_nil_iff.mpr fun turn inside => ?_
      cases turn with
      | functor => rfl
      | shutdownInLoop => rfl
      | sendInLoop other message =>
        refine if_neg fun same => ?_
        exact (List.pairwise_cons.mp behind).1 _ inside rfl other message rfl (same ▸ found)
    rw [waits_waiting,silent,none]
    rfl

-- It is issued with nothing left to write.
theorem Issuing.whole (issuing : Issuing s.threads label after) (old : Counted fd s) (new : Counted fd (s.record label after)) :
    bytesOf (s.record label after).order = after.life.loop.taken := by
  obtain ⟨inner,issues,ran⟩ := issuing.ran
  have issued := ConnLoop.next_issues old.settled.2 issues ran
  have live := (new.settled.1.still_open new.fresh).not_disconnected
  have empty : after.life.loop.conn.outputBuffer.readable = [] := by
    refine new.settled.2.shutdowns (after.life.loop.conn.state,after.life.loop.conn.outputBuffer.readable) ?_ live
    rw [show (s.record label after).threads = after from rfl,issued]
    exact List.mem_append_right _ List.mem_cons_self
  have bytes := new.settled.2.bytes
  rw [← new.accepted,show (s.record label after).threads = after from rfl,empty,List.append_nil] at bytes
  exact bytes.symm

structure Sound (fd : Nat) (s : Traffic Tid) : Prop where
  counted : Counted fd s
  ordered : Ordered s.threads s.closers
  issued : s.issues ≠ [] → s.threads.Left
  graceful : Graceful s

-- A thread that shuts down sends nothing more.
theorem closer_silent (old : Ordered s.threads s.closers) (found : who ∈ s.closers)
    (taken : ConnThreads.next ConnLoop.hangsUpAlone s.threads label = some after) :
    messagesOf who (s.threads.sends label) = [] := by
  have quiet : ∀ other messages, other ≠ who → messagesOf who (List.map (other,·) messages) = [] :=
    fun other messages apart => messagesOf_other apart messages
  cases ConnThreads.next_step taken with
  | loop alone ran =>
    rename_i label later
    match label with
    | .user (.send message result) =>
      simp only [sends]
      split
      · rename_i connected
        exact quiet none [message] fun same => old.own (same ▸ found) connected
      · rfl
    | .user (.sendInLoop _ _) | .user .shutdown | .user .shutdownInLoop | .user .forceClose => rfl
    | .user .startRead | .user .stopRead | .user (.inputBuffer _) => rfl
    | .epoll_wait _ | .handleEvent | .frame _ | .removeConnectionInLoop | .functor => rfl
  | runFunctor => rfl
  | call here =>
    rename_i t method
    cases method with
    | send message =>
      simp only [sends]
      split
      · rename_i connected
        refine quiet (some t) [message] fun same => ?_
        have idle : s.threads.members t ≠ .sets .shutdownInLoop := by
          rw [here]
          exact fun same => (by cases same)
        exact old.left (same ▸ found) idle connected
      · rfl
    | shutdown => rfl
    | forceClose => rfl
  | compare => rfl
  | setState => rfl
  | queueInLoop => rfl

omit [DecidableEq Tid] in
theorem shuts_connected (label : Label Tid) (left : s.threads.Left) : s.threads.shuts label = [] := by
  match label with
  | .loop (.user .shutdown) => exact if_neg left
  | .call t .shutdown => exact if_neg left
  | .loop (.user (.send _ _)) | .loop (.user (.sendInLoop _ _)) | .loop (.user .shutdownInLoop) => rfl
  | .loop (.user .forceClose) | .loop (.user .startRead) | .loop (.user .stopRead) | .loop (.user (.inputBuffer _)) => rfl
  | .loop (.epoll_wait _) | .loop .handleEvent | .loop (.frame _) | .loop .removeConnectionInLoop | .loop .functor => rfl
  | .call t (.send _) | .call t .forceClose | .runFunctor _ | .compare _ | .setState _ | .queueInLoop _ => rfl

theorem left_lasts (counted : Counted fd s) (unbroken : s.threads.Unbroken label)
    (taken : ConnThreads.next ConnLoop.hangsUpAlone s.threads label = some after) (left : s.threads.Left) : after.Left := by
  cases ConnThreads.next_step taken with
  | loop _ ran => exact counted.settled.1.stays_disconnecting counted.settled.2 unbroken.1 ran left
  | runFunctor found _ _ ran =>
    have goes := unbroken _ (congrArg List.head? found)
    exact counted.settled.1.stays_disconnecting counted.settled.2 goes.1 ran left
  | call => exact left
  | compare => exact left
  | setState => exact fun same => (by cases same)
  | queueInLoop =>
    rename_i cb _
    cases cb with
    | sendInLoop message => exact left
    | shutdownInLoop => exact left
    | forceCloseInLoop => exact left

theorem Sound.step (old : Sound fd s) (label : Label Tid) (unbroken : s.threads.Unbroken label) (met : s.Flushed label)
    (taken : ConnThreads.next ConnLoop.hangsUpAlone s.threads label = some after) : Sound fd (s.record label after) := by
  have counted := old.counted.step unbroken taken
  have ordered := ordered_step old.counted old.ordered unbroken taken
  have lasts := left_lasts old.counted unbroken taken
  have earlier : ∀ issue ∈ s.issues, ∀ who ∈ s.closers ++ s.threads.shuts label,
      Written who (s.sent ++ s.threads.sends label) issue.1 issue.2 := by
    intro issue inside who found
    have left := old.issued (List.ne_nil_of_mem inside)
    rw [shuts_connected label left,List.append_nil] at found
    obtain ⟨done,first,bytes,all⟩ := old.graceful issue inside who found
    refine ⟨done,first,bytes,?_⟩
    rw [messagesOf_append,closer_silent old.ordered found taken,List.append_nil]
    exact all
  by_cases grew : s.threads.life.loop.shutdowns.length < after.life.loop.shutdowns.length
  · have issuing := issuing_step old.counted taken grew
    have issues : (s.record label after).issues = s.issues ++ [((s.record label after).order,after.life.loop.taken)] := if_pos grew
    refine ⟨counted,ordered,fun _ => issuing.left old.ordered lasts,fun issue inside who found => ?_⟩
    rw [issues] at inside
    rcases List.mem_append.mp inside with before | now
    · exact earlier issue before who found
    · cases List.mem_singleton.mp now
      refine ⟨_,List.prefix_rfl,(issuing.whole old.counted counted) ▸ List.prefix_rfl,?_⟩
      have waits : ((s.record label after).threads.waiting who).flatten = [] := by
        cases who with
        | none => rfl
        | some t => exact issuing.waiting old.ordered met (issuing.closers found)
      rw [counted.balance who,List.flatten_append,waits,List.append_nil]
  · have issues : (s.record label after).issues = s.issues := if_neg grew
    refine ⟨counted,ordered,fun some => lasts (old.issued (issues ▸ some)),fun issue inside who found => ?_⟩
    rw [issues] at inside
    exact earlier issue inside who found

-- What the kernel has is less than what the thread has sent.
theorem waiting_unwritten (counted : Counted fd s) (some : (s.threads.waiting who).flatten ≠ []) :
    ¬Written who s.sent s.order taken := by
  intro given
  obtain ⟨done,⟨rest,same⟩,_,all⟩ := given
  rw [counted.balance who,← same,messagesOf_append,List.flatten_append,List.flatten_append,List.append_assoc] at all
  have nothing := List.append_cancel_left ((List.append_nil _).trans all)
  exact some (List.append_eq_nil_iff.mp nothing.symm).2

theorem unflushed_cut (old : Sound fd s) (label : Label Tid) (unbroken : s.threads.Unbroken label) (missed : ¬s.Flushed label)
    (taken : ConnThreads.next ConnLoop.hangsUpAlone s.threads label = some after) : ¬Graceful (s.record label after) := by
  have counted := old.counted.step unbroken taken
  cases ConnThreads.next_step taken with
  | loop alone ran =>
    rename_i label later
    obtain ⟨issues,cut⟩ := Classical.not_imp.mp missed
    obtain ⟨t,left⟩ := not_forall.mp cut
    obtain ⟨found,waits⟩ := Classical.not_imp.mp left
    have issued := ConnLoop.next_issues old.counted.settled.2 issues ran
    have grew : s.threads.life.loop.shutdowns.length < later.loop.shutdowns.length := by
      rw [issued,List.length_append]
      exact Nat.lt_succ_self _
    intro graceful
    have now : ((s.record (.loop label) (s.threads.waits s.threads.turns later)).order,later.loop.taken) ∈
        (s.record (.loop label) (s.threads.waits s.threads.turns later)).issues := by
      rw [show (s.record (.loop label) (s.threads.waits s.threads.turns later)).issues = _ from if_pos grew]
      exact List.mem_append_right _ List.mem_cons_self
    refine waiting_unwritten counted ?_ (graceful _ now (some t) (List.mem_append_left _ found))
    intro none
    have all := (congrArg List.flatten (waits_waiting s.threads t s.threads.turns later)).symm.trans none
    rw [List.flatten_append] at all
    exact waits (List.append_eq_nil_iff.mp all).1
  | _ => exact absurd trivial missed

theorem start_sound (origin : (machine ConnLoop.hangsUpAlone).start s) : ∃ fd, Sound fd s := by
  obtain ⟨⟨⟨fd,highWaterMark,complete,high,born⟩,turns,idle⟩,empty⟩ := origin
  have settled : ConnLoop.Settled fd s.threads.life := by
    rw [born]
    exact ⟨ConnLoop.established_kept _ _ _ _ _,ConnLoop.established_stream _ _ _ _⟩
  have sent : s.sent = [] := congrArg Traffic.sent empty
  have order : s.order = [] := congrArg Traffic.order empty
  have closers : s.closers = [] := congrArg Traffic.closers empty
  have issues : s.issues = [] := congrArg Traffic.issues empty
  refine ⟨fd,⟨settled,by rw [born]; rfl,by rw [born,order]; rfl,fun who => ?_⟩,⟨?_,?_,?_,?_,?_⟩,fun some => absurd issues some,?_⟩
  · rw [sent,order]
    cases who with
    | none => rfl
    | some t => simp [waiting,turns,idle,queued,Member.message,messagesOf]
  · intro t found
    rw [closers] at found
    cases found
  · intro found
    rw [closers] at found
    cases found
  · intro t here
    rw [idle] at here
    cases here
  · intro found
    rw [turns] at found
    cases found
  · rw [turns]
    exact .nil
  · intro issue inside
    rw [issues] at inside
    cases inside

-- On a connection that is not closed or broken SHUT_WR never comes too early in
-- exactly the runs where the loop thread issues it with no such bytes queued.
theorem graceful_iff_flushed {s final : Traffic Tid} (labels : List (Label Tid))
    (origin : (machine ConnLoop.hangsUpAlone).start s)
    (ran : (machine ConnLoop.hangsUpAlone).run s labels = some final)
    (unbroken : (machine ConnLoop.hangsUpAlone).Meets (fun s label => s.threads.Unbroken label) s labels) :
    (machine ConnLoop.hangsUpAlone).Throughout Graceful s labels ↔
      (machine ConnLoop.hangsUpAlone).Meets Flushed s labels := by
  obtain ⟨fd,valid⟩ := start_sound origin
  have sound : ∀ s : Traffic Tid, Sound fd s → Graceful s := fun _ old => old.graceful
  refine Machine.throughout_iff_meets_given sound ?_ ?_ valid ran unbroken
  · intro s label after old unbroken met taken
    obtain ⟨threads,taken,same⟩ := Option.map_eq_some_iff.mp taken
    rw [← same]
    exact old.step label unbroken met taken
  · intro s label after old unbroken missed taken
    obtain ⟨threads,taken,same⟩ := Option.map_eq_some_iff.mp taken
    rw [← same]
    exact unflushed_cut old label unbroken missed taken

def start : Traffic Nat := ⟨fresh,[],[],[],[]⟩

theorem started : (machine ConnLoop.hangsUpAlone).start start := ⟨⟨⟨7,100,false,false,rfl⟩,rfl,fun _ => rfl⟩,rfl⟩

theorem graceful_after_send :
    (machine ConnLoop.hangsUpAlone).Throughout Graceful start
      [.loop (.frame .none),.call 1 (.send [2]),.queueInLoop 1,.call 1 .shutdown,.setState 1,.queueInLoop 1,
        .runFunctor (.wrote 1),.runFunctor (.wrote 0)] := by
  refine (graceful_iff_flushed _ started rfl ?_).mpr ?_
  · refine .cons ⟨fun enters => (by cases enters),trivial⟩ rfl ?_
    refine .cons trivial rfl ?_
    refine .cons trivial rfl ?_
    refine .cons trivial rfl ?_
    refine .cons trivial rfl ?_
    refine .cons trivial rfl ?_
    refine ⟨fun turn found => ?_,fun _ taken => ?_⟩
    · cases found
      exact ⟨fun enters => enters,trivial⟩
    cases taken
    refine ⟨fun turn found => ?_,fun _ _ => trivial⟩
    cases found
    exact ⟨fun enters => enters,trivial⟩
  · refine ⟨fun issues => issues.elim,fun _ _ => Machine.meets_labels ?_⟩
    simp [Flushed]

-- An older backlog ends while the send of the thread that shuts down waits.
theorem shutdown_cuts_queued_send :
    ∃ s, (machine ConnLoop.hangsUpAlone).run start
        [.loop (.frame .none),.loop (.user (.send [1] (.error .EWOULDBLOCK .EWOULDBLOCK))),.call 1 (.send [2]),.queueInLoop 1,
          .call 1 .shutdown,.setState 1,.queueInLoop 1,.loop (.epoll_wait EPOLLOUT),.loop .handleEvent,
          .loop (.frame (.write (.wrote 1)))] = some s ∧
      s.sent = [(none,[1]),(some 1,[2])] ∧ s.closers = [some 1] ∧ s.issues = [([(none,[1])],[1])] ∧ ¬Graceful s := by
  have found : ((machine ConnLoop.hangsUpAlone).run start
        [.loop (.frame .none),.loop (.user (.send [1] (.error .EWOULDBLOCK .EWOULDBLOCK))),.call 1 (.send [2]),.queueInLoop 1,
          .call 1 .shutdown,.setState 1,.queueInLoop 1,.loop (.epoll_wait EPOLLOUT),.loop .handleEvent,
          .loop (.frame (.write (.wrote 1)))]).any (fun s => decide (s.sent = [(none,[1]),(some 1,[2])] ∧
      s.closers = [some 1] ∧ s.issues = [([(none,[1])],[1])])) = true := by decide +kernel
  obtain ⟨s,ran,parts⟩ := (Option.any_eq_true _ _).mp found
  obtain ⟨sent,closers,issues⟩ := of_decide_eq_true parts
  refine ⟨s,ran,sent,closers,issues,fun graceful => ?_⟩
  obtain ⟨done,first,_,all⟩ := graceful ([(none,[1])],[1]) (by rw [issues]; exact List.mem_cons_self) (some 1)
    (by rw [closers]; exact List.mem_cons_self)
  have nothing : messagesOf (some 1) done <+: messagesOf (some 1) [(none,[1])] := by
    obtain ⟨rest,same⟩ := first
    refine ⟨messagesOf (some 1) rest,?_⟩
    rw [← messagesOf_append]
    exact congrArg (messagesOf (some 1)) same
  have empty : messagesOf (some 1) done = [] := List.prefix_nil.mp nothing
  rw [sent,empty] at all
  cases all

end Traffic
end NewMuduo
