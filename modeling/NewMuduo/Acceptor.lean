import NewMuduo.EpollPoller

namespace NewMuduo

def EAGAIN : Nat := 11
def EMFILE : Nat := 24

-- What accept comes back with: the descriptor of the first connection, an
-- error of that connection, which is then gone, or an error that takes none.
inductive Accepted where
  | connfd (fd : Nat)
  | aborted
  | error (errno : Nat)
  deriving DecidableEq, Repr

def Accepted.takes : Accepted → Nat
  | .connfd _ | .aborted => 1
  | .error _ => 0

-- Where the loop thread is with the read event of the listening socket.
inductive Accepting where
  | unregistered
  | idle
  | active
  | idleFdClosed
  | calling
  deriving DecidableEq, Repr

-- net/Acceptor.cpp, handleRead up to newConnectionCallback_ or the second accept.
def Acceptor.handleRead : Accepted → Accepting
  | .connfd _ => .calling
  | .aborted => .idle
  | .error errno => if errno = EMFILE then .idleFdClosed else .idle

-- coro/CoroTcpServer.cpp, onAccept up to the start of the connection.
def CoroTcpServer.onAccept : Accepted → Accepting
  | .connfd _ => .calling
  | .aborted | .error _ => .idle

inductive Listener where
  | acceptor
  | coroTcpServer
  deriving DecidableEq, Repr

def Listener.handler : Listener → Accepted → Accepting
  | .acceptor => Acceptor.handleRead
  | .coroTcpServer => CoroTcpServer.onAccept

-- A listening socket in the poller. edge is what the kernel keeps of the
-- arrivals for an edge-triggered descriptor. The rest counts for the last
-- epoll_wait that returned the event: the connections that were there, those
-- that came since and those that accept took.
structure Listening where
  listener : Listener
  poller : EPollPoller Unit
  channel : Channel
  acceptQueue : List Nat
  edge : Bool
  phase : Accepting
  waiting : Nat
  since : Nat
  taken : Nat

namespace Listening

inductive Label where
  | arrive (client : Nat)
  | enableReading
  | epoll_wait
  | accept (r : Accepted)
  | acceptIdle (r : Accepted)
  | returns
  deriving DecidableEq, Repr

def interest (s : Listening) : BitVec 32 := (s.poller.interest s.channel.fd).elim 0 (·.events)

-- The next epoll_wait returns EPOLLIN for the socket.
def pending (s : Listening) : Bool :=
  hasAny s.interest EPOLLIN && if hasAny s.interest EPOLLET then s.edge else !s.acceptQueue.isEmpty

-- EPOLL_CTL_ADD finds the connections that are there.
def enableReading (s : Listening) : Listening :=
  let (poller,channel) := s.poller.updateChannel () (s.channel.request .enableReading)
  {s with poller := poller,channel := channel,edge := !s.acceptQueue.isEmpty,phase := .idle}

-- The socket does not block, and accept says EAGAIN for an empty queue only.
def possible (s : Listening) : Accepted → Bool
  | .connfd _ | .aborted => !s.acceptQueue.isEmpty
  | .error errno => errno ≠ EAGAIN || s.acceptQueue.isEmpty

def take (s : Listening) (r : Accepted) (phase : Accepting) : Listening :=
  {s with acceptQueue := s.acceptQueue.drop r.takes,taken := s.taken + r.takes,phase := phase}

def allowed (s : Listening) : Label → Bool
  | .arrive _ => true
  | .enableReading => s.phase = .unregistered
  | .epoll_wait => s.phase = .idle && s.pending
  | .accept r => s.phase = .active && s.possible r
  | .acceptIdle r => s.phase = .idleFdClosed && s.possible r
  | .returns => s.phase = .calling

def apply (s : Listening) : Label → Listening
  | .arrive client => {s with acceptQueue := s.acceptQueue ++ [client],edge := true,since := s.since + 1}
  | .enableReading => s.enableReading
  | .epoll_wait => {s with
      edge := false
      phase := .active
      waiting := s.acceptQueue.length
      since := 0
      taken := 0}
  | .accept r => s.take r (s.listener.handler r)
  | .acceptIdle r => s.take r .idle
  | .returns => {s with phase := .idle}

def new (listener : Listener) (fd : Nat) : Listening := ⟨listener,.new,.new fd,[],false,.unregistered,0,0,0⟩

def machine : Machine Listening Label :=
  .guarded (fun s => ∃ listener fd, s = new listener fd) (fun s label => s.allowed label = true) apply

variable {s : Listening} {r : Accepted}

-- Outside the handling of a read event no connection waits without one pending.
def Heard (s : Listening) : Prop := s.phase = .idle → s.acceptQueue ≠ [] → s.pending = true

-- The step ends the handling.
def ends (s : Listening) : Label → Bool
  | .accept r => s.listener.handler r = .idle
  | .acceptIdle _ | .returns => true
  | _ => false

def takes : Label → Nat
  | .accept r | .acceptIdle r => r.takes
  | _ => 0

-- The handling ends when accept took as many connections as there were when
-- epoll_wait returned, or when another came after that.
def Drained (s : Listening) (label : Label) : Prop :=
  s.ends label = true → 0 < s.since ∨ s.waiting ≤ s.taken + takes label

instance (s : Listening) (label : Label) : Decidable (s.Drained label) := inferInstanceAs (Decidable (_ → _))

-- The channel as its constructor and listen() leave it.
structure Registered (s : Listening) : Prop where
  before : s.phase = .unregistered → ∃ fd, s.channel = .new fd
  after : s.phase ≠ .unregistered → hasAny s.interest EPOLLIN = true ∧ hasAny s.interest EPOLLET = true

-- The counts in the handling of an event.
structure Counted (s : Listening) : Prop where
  registered : Registered s
  edge : s.phase ≠ .unregistered → s.phase ≠ .idle → s.edge = decide (0 < s.since)
  length : s.phase ≠ .unregistered → s.phase ≠ .idle → s.acceptQueue.length + s.taken = s.waiting + s.since

theorem Registered.pending (old : Registered s) (known : s.phase ≠ .unregistered) : s.pending = s.edge := by
  obtain ⟨input,triggered⟩ := old.after known
  simp [Listening.pending,input,triggered]

-- A new channel registers as edge-triggered.
theorem enableReading_registered (fresh : s.channel = .new fd) : Registered s.enableReading := by
  have added := EPollPoller.updateChannel_add (p := s.poller) () (s.channel.request .enableReading) (by rw [fresh]; exact Int.negSucc_lt_zero 0)
  have interest : s.enableReading.interest = EPollPoller.mask ((Channel.new fd).request .enableReading) := by
    unfold Listening.interest enableReading
    rw [added,fresh]
    simp
  refine ⟨fun absent => (by cases absent),fun _ => ?_⟩
  rw [interest]
  change hasAny (kNoneEvent ||| kReadEvent ||| EPOLLET) EPOLLIN = true ∧ hasAny (kNoneEvent ||| kReadEvent ||| EPOLLET) EPOLLET = true
  exact ⟨by decide,by decide⟩

theorem possible_length (able : s.possible r = true) :
    (s.acceptQueue.drop r.takes).length + r.takes = s.acceptQueue.length := by
  rw [List.length_drop]
  cases r with
  | error errno => rfl
  | connfd fd | aborted =>
    cases here : s.acceptQueue with
    | nil => simp [possible,here] at able
    | cons first rest => rfl

theorem handler_known (listener : Listener) (r : Accepted) : listener.handler r ≠ .unregistered := by
  cases listener <;> cases r <;> simp [Listener.handler,Acceptor.handleRead,CoroTcpServer.onAccept]
  split <;> exact Accepting.noConfusion

namespace Counted

theorem started (listener : Listener) (fd : Nat) : Counted (new listener fd) :=
  ⟨⟨fun _ => ⟨fd,rfl⟩,fun known => absurd rfl known⟩,fun known => absurd rfl known,fun known => absurd rfl known⟩

theorem arrive (old : Counted s) (client : Nat) : Counted (s.apply (.arrive client)) := by
  refine ⟨⟨old.registered.before,old.registered.after⟩,fun _ _ => (decide_eq_true (Nat.succ_pos s.since)).symm,?_⟩
  intro known busy
  have length := old.length known busy
  simp only [apply,List.length_append,List.length_singleton]
  omega

theorem enableReading (old : Counted s) (able : s.allowed .enableReading = true) : Counted (s.apply .enableReading) := by
  obtain ⟨fd,fresh⟩ := old.registered.before (of_decide_eq_true able)
  exact ⟨enableReading_registered fresh,fun _ busy => absurd rfl busy,fun _ busy => absurd rfl busy⟩

theorem epoll_wait (old : Counted s) (able : s.allowed .epoll_wait = true) : Counted (s.apply .epoll_wait) := by
  have idle : s.phase = .idle := of_decide_eq_true (Bool.and_eq_true_iff.mp able).1
  have known : s.phase ≠ .unregistered := by
    rw [idle]
    exact Accepting.noConfusion
  exact ⟨⟨fun absent => (by cases absent),fun _ => old.registered.after known⟩,fun _ _ => rfl,fun _ _ => rfl⟩

theorem take (old : Counted s) (known : s.phase ≠ .unregistered) (busy : s.phase ≠ .idle) (able : s.possible r = true)
    {phase : Accepting} (next : phase ≠ .unregistered) : Counted (s.take r phase) := by
  have length := old.length known busy
  have rest := possible_length able
  refine ⟨⟨fun absent => absurd absent next,fun _ => old.registered.after known⟩,fun _ _ => old.edge known busy,fun _ _ => ?_⟩
  unfold Listening.take
  dsimp only
  omega

theorem step (old : Counted s) (label : Label) (able : s.allowed label = true) : Counted (s.apply label) := by
  cases label with
  | arrive client => exact old.arrive client
  | enableReading => exact old.enableReading able
  | epoll_wait => exact old.epoll_wait able
  | accept r =>
    obtain ⟨active,able⟩ := Bool.and_eq_true_iff.mp able
    have phase : s.phase = .active := of_decide_eq_true active
    exact old.take (by simp [phase]) (by simp [phase]) able (handler_known _ _)
  | acceptIdle r =>
    obtain ⟨closed,able⟩ := Bool.and_eq_true_iff.mp able
    have phase : s.phase = .idleFdClosed := of_decide_eq_true closed
    exact old.take (by simp [phase]) (by simp [phase]) able Accepting.noConfusion
  | returns =>
    have phase : s.phase = .calling := of_decide_eq_true able
    exact ⟨⟨fun absent => (by cases absent),fun _ => old.registered.after (by simp [phase])⟩,
      fun _ busy => absurd rfl busy,fun _ busy => absurd rfl busy⟩

end Counted

-- What a step that ends the handling leaves.
theorem Counted.ended (old : Counted s) (label : Label) (able : s.allowed label = true) (last : s.ends label = true) :
    (s.apply label).phase = .idle ∧ (s.apply label).edge = decide (0 < s.since) ∧
      (s.apply label).acceptQueue.length + (s.taken + takes label) = s.waiting + s.since := by
  cases label with
  | arrive client | enableReading | epoll_wait => cases last
  | accept r =>
    obtain ⟨active,able⟩ := Bool.and_eq_true_iff.mp able
    have phase : s.phase = .active := of_decide_eq_true active
    have length := old.length (by simp [phase]) (by simp [phase])
    have rest := possible_length able
    refine ⟨of_decide_eq_true last,old.edge (by simp [phase]) (by simp [phase]),?_⟩
    simp only [apply,Listening.take,takes]
    omega
  | acceptIdle r =>
    obtain ⟨closed,able⟩ := Bool.and_eq_true_iff.mp able
    have phase : s.phase = .idleFdClosed := of_decide_eq_true closed
    have length := old.length (by simp [phase]) (by simp [phase])
    have rest := possible_length able
    refine ⟨rfl,old.edge (by simp [phase]) (by simp [phase]),?_⟩
    simp only [apply,Listening.take,takes]
    omega
  | returns =>
    have phase : s.phase = .calling := of_decide_eq_true able
    exact ⟨rfl,old.edge (by simp [phase]) (by simp [phase]),old.length (by simp [phase]) (by simp [phase])⟩

theorem Counted.heard (old : Counted s) (label : Label) (able : s.allowed label = true) (met : s.Drained label) :
    Heard (s.apply label) := by
  have next := old.step label able
  intro idle waits
  have known : (s.apply label).phase ≠ .unregistered := by
    rw [idle]
    exact Accepting.noConfusion
  rw [next.registered.pending known]
  by_cases last : s.ends label = true
  · obtain ⟨_,edge,length⟩ := old.ended label able last
    have some := List.length_pos_of_ne_nil waits
    rw [edge,decide_eq_true_iff]
    have enough := met last
    omega
  · cases label with
    | arrive client => rfl
    | enableReading =>
      have some : s.acceptQueue ≠ [] := waits
      change (!s.acceptQueue.isEmpty) = true
      simpa using some
    | epoll_wait => cases idle
    | accept r => exact absurd (decide_eq_true idle) last
    | acceptIdle r | returns => exact absurd rfl last

theorem Counted.unheard (old : Counted s) (label : Label) (able : s.allowed label = true) (missed : ¬s.Drained label) :
    ¬Heard (s.apply label) := by
  unfold Drained at missed
  push Not at missed
  obtain ⟨last,none,left⟩ := missed
  obtain ⟨idle,edge,length⟩ := old.ended label able last
  have known : (s.apply label).phase ≠ .unregistered := by
    rw [idle]
    exact Accepting.noConfusion
  intro heard
  have waits : (s.apply label).acceptQueue ≠ [] := by
    intro empty
    rw [empty,List.length_nil] at length
    omega
  have pending := heard idle waits
  rw [(old.step label able).registered.pending known,edge,decide_eq_true_iff] at pending
  omega

theorem heard_iff_drained {listener : Listener} (ran : machine.run (new listener fd) labels = some last) :
    machine.Throughout Heard (new listener fd) labels ↔ machine.Meets Drained (new listener fd) labels := by
  have started : Counted (new listener fd) ∧ Heard (new listener fd) :=
    ⟨Counted.started listener fd,fun absent => (by cases absent)⟩
  refine Machine.throughout_iff_meets (fun s old => And.right old) ?_ ?_ started ran
  · intro s label after old met taken
    obtain ⟨able,rfl⟩ := Machine.guarded_parts.mp taken
    exact ⟨old.1.step label able,old.1.heard label able met⟩
  · intro s label after old missed taken
    obtain ⟨able,rfl⟩ := Machine.guarded_parts.mp taken
    exact old.1.unheard label able missed

-- Two clients arrive before epoll_wait returns, and accept takes the first.
def merged : List Label := [.enableReading,.arrive 1,.arrive 2,.epoll_wait,.accept (.connfd 5),.returns]

theorem client_left : ∃ s t, machine.run (new .acceptor 3) merged = some s ∧
    machine.run (new .coroTcpServer 3) merged = some t ∧
    s.phase = .idle ∧ s.acceptQueue = [2] ∧ s.pending = false ∧
    t.phase = .idle ∧ t.acceptQueue = [2] ∧ t.pending = false := by
  exact ⟨_,_,rfl,rfl,rfl,rfl,rfl,rfl,rfl,rfl⟩

-- One client at a time, the first while the process has no descriptors left.
def oneByOne : List Label := [.enableReading,.arrive 1,.epoll_wait,.accept (.error EMFILE),.acceptIdle (.connfd 4),
  .arrive 2,.epoll_wait,.accept (.connfd 5),.returns]

theorem heard_oneByOne : machine.Throughout Heard (new .acceptor 3) oneByOne := by
  refine (@heard_iff_drained 3 _ _ .acceptor rfl).mpr ?_
  iterate 9
    refine .cons (by decide) rfl ?_
  trivial

end Listening
end NewMuduo
