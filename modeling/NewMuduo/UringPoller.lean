import NewMuduo.Machine
import NewMuduo.Ring

namespace NewMuduo

-- A completion as the kernel posts it: the user_data of its request, nullptr for
-- the wakeup poll, and its result. number is its place in the order of posting;
-- no code reads it.
structure Cqe (Ctx : Type u) where
  number : Nat
  user_data : Option Ctx
  res : Int
  deriving DecidableEq, Repr

-- What handleCompletions did with one completion, with the number of the
-- completion that each of the two reads found in the slot.
inductive Delivery (Ctx : Type u) where
  | wakeup (number : Nat)
  | resumed (number : Nat) (ctx : Ctx) (resNumber : Nat) (res : Int)
  deriving DecidableEq, Repr

def Cqe.delivery {Ctx : Type u} (cqe : Cqe Ctx) : Delivery Ctx :=
  match cqe.user_data with
  | none => .wakeup cqe.number
  | some ctx => .resumed cqe.number ctx cqe.number cqe.res

-- How far poll has come: waiting for a completion, in the loop that collects
-- pointers (with its head and count), or in handleCompletions with the pointers
-- left, before and after it reads user_data and while a coroutine runs.
inductive PollPosition (Ctx : Type u) where
  | idle
  | waiting
  | collecting (head count : Nat)
  | handling (left : List Nat)
  | loaded (slot number : Nat) (ctx : Ctx) (left : List Nat)
  | wakeup (left : List Nat)
  | resumed (left : List Nat)
  deriving DecidableEq, Repr

-- io_uring/uring_poller.h with the two rings of uring_: the requests prepared,
-- the requests the kernel has, the completion ring with its head. delivered
-- records what handleCompletions did.
structure UringPoller (Ctx : Type u) where
  sqEntries : Nat
  sq : List (Option Ctx)
  inflight : List (Option Ctx)
  cq : Ring (Cqe Ctx)
  khead : Nat
  wakeupPollArmed : Bool
  pending_sqes : Nat
  active_cqes : List Nat
  position : PollPosition Ctx
  delivered : List (Delivery Ctx)

namespace UringPoller
variable {Ctx : Type u}

-- io_uring_submit: an error, or the kernel has taken ret of the requests.
def submitPendingSqes (p : UringPoller Ctx) (ret : Option Nat) : UringPoller Ctx :=
  if 0 < p.pending_sqes then
    match ret with
    | none => p
    | some ret =>
      {p with
        pending_sqes := p.pending_sqes - ret
        inflight := p.inflight ++ p.sq.take ret
        sq := p.sq.drop ret}
  else p

def min_submit_sqes : Nat := 4

def submitIfNeeded (p : UringPoller Ctx) (ret : Option Nat) : UringPoller Ctx :=
  if min_submit_sqes ≤ p.pending_sqes then p.submitPendingSqes ret else p

-- getSqe, then io_uring_sqe_set_data: nothing is prepared when the submission
-- ring stays full.
def prepare (p : UringPoller Ctx) (user_data : Option Ctx) (ret : Option Nat) : UringPoller Ctx × Bool :=
  let p := if p.sq.length < p.sqEntries then p else p.submitPendingSqes ret
  if p.sq.length < p.sqEntries then
    ({p with sq := p.sq ++ [user_data],pending_sqes := p.pending_sqes + 1},true)
  else (p,false)

-- submitRead, submitWrite and submitAccept, then the awaiter's submitIfNeeded.
def submit (p : UringPoller Ctx) (ctx : Ctx) (full ret : Option Nat) : UringPoller Ctx :=
  (p.prepare (some ctx) full).1.submitIfNeeded ret

def registerWakeupPoll (p : UringPoller Ctx) (full ret : Option Nat) : UringPoller Ctx :=
  let prepared := p.prepare none full
  if prepared.2 then {prepared.1 with wakeupPollArmed := true}.submitPendingSqes ret else prepared.1

-- The head of poll; it submits like submitPendingSqes.
def poll (p : UringPoller Ctx) (ret : Option Nat) : UringPoller Ctx :=
  {p.submitPendingSqes ret with position := .waiting}

-- One turn of io_uring_for_each_cqe, which reads the kernel's tail each time.
-- After the last one the slots are released before they are read.
def collect (p : UringPoller Ctx) (head count : Nat) : UringPoller Ctx :=
  if head < p.cq.tail then
    {p with active_cqes := p.active_cqes ++ [p.cq.slot head],position := .collecting (head + 1) (count + 1)}
  else if 0 < count then {p with khead := p.khead + count,position := .handling p.active_cqes}
  else {p with position := .idle}

-- io_uring_cqe_get_data.
def load (p : UringPoller Ctx) (slot : Nat) (left : List Nat) : UringPoller Ctx :=
  let cqe := p.cq.read slot
  match cqe.user_data with
  | none => {p with position := .wakeup left,delivered := p.delivered ++ [.wakeup cqe.number]}
  | some ctx => {p with position := .loaded slot cqe.number ctx left}

-- user_data->res = cqe->res, then resume().
def deliver (p : UringPoller Ctx) (slot number : Nat) (ctx : Ctx) (left : List Nat) : UringPoller Ctx :=
  let cqe := p.cq.read slot
  {p with position := .resumed left,delivered := p.delivered ++ [.resumed number ctx cqe.number cqe.res]}

def rearm (p : UringPoller Ctx) (left : List Nat) (full ret : Option Nat) : UringPoller Ctx :=
  {{p with wakeupPollArmed := false}.registerWakeupPoll full ret with position := .handling left}

-- The kernel completes the index-th request it has, when the ring has a slot
-- that is not taken.
def post (p : UringPoller Ctx) (index : Nat) (user_data : Option Ctx) (res : Int) : UringPoller Ctx :=
  {p with inflight := p.inflight.eraseIdx index,cq := p.cq.put ⟨p.cq.tail,user_data,res⟩}

-- A step of the loop thread or, with post, of the kernel. The arguments are
-- the results of the system calls.
inductive Label (Ctx : Type u) where
  | submit (ctx : Ctx) (full ret : Option Nat)
  | poll (ret : Option Nat)
  | wait_cqe (ok : Bool)
  | collect
  | load
  | deliver
  | rearm (full ret : Option Nat)
  | suspend
  | clear
  | post (index : Nat) (res : Int)
  deriving DecidableEq, Repr

def next (p : UringPoller Ctx) : Label Ctx → Option (UringPoller Ctx)
  | .submit ctx full ret =>
    match p.position with
    | .idle | .resumed _ => some (p.submit ctx full ret)
    | _ => none
  | .poll ret => if p.position matches .idle then some (p.poll ret) else none
  | .wait_cqe ok =>
    if p.position matches .waiting then
      some {p with position := if ok then .collecting p.khead 0 else .idle}
    else none
  | .collect =>
    match p.position with
    | .collecting head count => some (p.collect head count)
    | _ => none
  | .load =>
    match p.position with
    | .handling (slot :: left) => some (p.load slot left)
    | _ => none
  | .deliver =>
    match p.position with
    | .loaded slot number ctx left => some (p.deliver slot number ctx left)
    | _ => none
  | .rearm full ret =>
    match p.position with
    | .wakeup left => some (p.rearm left full ret)
    | _ => none
  | .suspend =>
    match p.position with
    | .resumed left => some {p with position := .handling left}
    | _ => none
  | .clear =>
    if p.position matches .handling [] then some {p with position := .idle,active_cqes := []} else none
  | .post index res =>
    match p.inflight[index]? with
    | some user_data => if p.cq.tail < p.khead + p.cq.entries then some (p.post index user_data res) else none
    | none => none

-- initUring: io_uring_queue_init and the first registerWakeupPoll.
def initUring (sqEntries entries : Nat) (cqes : Nat → Cqe Ctx) (nonempty : 0 < entries) (full ret : Option Nat) : UringPoller Ctx :=
  registerWakeupPoll ⟨sqEntries,[],[],.new entries cqes nonempty,0,false,0,[],.idle,[]⟩ full ret

def machine : Machine (UringPoller Ctx) (Label Ctx) where
  start p := ∃ sqEntries entries cqes nonempty full ret, p = initUring sqEntries entries cqes nonempty full ret
  next := next

end UringPoller
end NewMuduo
