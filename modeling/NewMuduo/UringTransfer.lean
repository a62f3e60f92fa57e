import NewMuduo.UringTcpConnection
import NewMuduo.Integers

namespace NewMuduo

inductive UringTransfer.Call where
  | read
  | send
  deriving DecidableEq, Repr

-- The locals of read and send. data is read_ or write_.
structure UringTransfer.Locals where
  remain_write : Int
  total : Int
  data : Nat
  len : Int
  deriving DecidableEq, Repr

-- fellOff is the end of the coroutine without a co_return.
inductive UringTransfer.Stage where
  | suspended (locals : UringTransfer.Locals)
  | returned (result : Int)
  | fellOff
  deriving DecidableEq, Repr

-- A request to io_uring, for the bytes from start on.
structure UringTransfer.Submission where
  start : Nat
  nbytes : Int
  deriving DecidableEq, Repr

-- res of the completion that resumes the coroutine, and errno of the thread by then.
structure UringTransfer.Completion where
  res : Int
  errno : Int
  deriving DecidableEq, Repr

-- io_uring/UringCoroTcpConnection.cpp, one call of read or send: a pointer is the
-- number of its address, an integer its value. submissions has the requests so
-- far, closes counts the calls of handleClose.
structure UringTransfer where
  stage : UringTransfer.Stage
  submissions : List UringTransfer.Submission
  closes : Nat
  deriving DecidableEq, Repr

namespace UringTransfer
open IntType (int unsignedInt size_t ssize_t)

def EAGAIN : Int := 11
def EWOULDBLOCK : Int := 11
def EINTR : Int := 4

-- The type of remain_write and total.
def Call.counter : Call → IntType
  | .read => int
  | .send => size_t

-- static_cast<unsigned>, then the parameters of wait_read or wait_write, of
-- submitRead or submitWrite and of io_uring_prep_read or io_uring_prep_write.
def nbytes (len : Int) : Int := unsignedInt.convert (size_t.convert (int.convert (unsignedInt.convert len)))

-- The head of the loop, and co_await.
def loop (t : UringTransfer) (l : Locals) : UringTransfer :=
  if 0 < l.remain_write then {t with stage := .suspended l,submissions := t.submissions ++ [⟨l.data,nbytes l.len⟩]}
  else {t with stage := .fellOff}

def begin (call : Call) (data : Nat) (len : Int) : UringTransfer :=
  loop ⟨.fellOff,[],0⟩ ⟨call.counter.convert len,call.counter.convert len,data,len⟩

-- res > 0
def transferred (t : UringTransfer) (counter : IntType) (l : Locals) (res : Int) : UringTransfer :=
  let remain_write := counter.convert (l.remain_write - res)
  if remain_write = 0 then {t with stage := .returned (ssize_t.convert l.total)}
  else t.loop {l with remain_write := remain_write,data := l.data + res.toNat,len := int.convert (l.len - res)}

def close (t : UringTransfer) (result : Int) : UringTransfer := {t with stage := .returned result,closes := t.closes + 1}

def retries (errno : Int) : Bool := errno == EAGAIN || errno == EWOULDBLOCK || errno == EINTR

def read (t : UringTransfer) (l : Locals) (res errno : Int) : UringTransfer :=
  if 0 < res then t.transferred Call.read.counter l res
  else if res = 0 then t.close 0
  else if retries errno then t.loop l
  else t.close res

def send (t : UringTransfer) (l : Locals) (res errno : Int) : UringTransfer :=
  if 0 < res then t.transferred Call.send.counter l res
  else if res = 0 then t.loop l
  else if retries errno then t.loop l
  else t.close res

-- A completion for a coroutine that waits for one.
def resume (t : UringTransfer) (call : Call) (c : Completion) : UringTransfer :=
  match t.stage,call with
  | .suspended l,.read => t.read l c.res c.errno
  | .suspended l,.send => t.send l c.res c.errno
  | _,_ => t

section whole
variable {t : UringTransfer} {call : Call} {c : Completion} {data len n : Nat} {v : Int}

theorem nbytes_eq (some : 0 ≤ v) (few : v ≤ int.highest) : nbytes v = v := by
  have narrow : unsignedInt.convert v = v := IntType.convert_of_holds (IntType.holds_of_le some (Int.le_trans few (by decide)))
  have param : int.convert v = v := IntType.convert_of_holds (IntType.holds_of_le some few)
  have count : size_t.convert v = v := IntType.convert_of_holds (IntType.holds_of_le some (Int.le_trans few (by decide)))
  unfold nbytes
  rw [narrow,param,count,narrow]

theorem counter_eq (call : Call) (some : 0 ≤ v) (few : v ≤ int.highest) : call.counter.convert v = v := by
  refine IntType.convert_of_holds (IntType.holds_of_le some (Int.le_trans few ?_))
  cases call <;> decide

-- The locals when n bytes of len are done, and the request for the rest.
def Locals.after (data len n : Nat) : Locals := ⟨len - n,len,data + n,len - n⟩

def Submission.rest (data len n : Nat) : Submission := ⟨data + n,len - n⟩

theorem loop_after (fits : (len : Int) ≤ int.highest) (more : n < len) (t : UringTransfer) (data : Nat) :
    t.loop (.after data len n) =
      {t with stage := .suspended (.after data len n),submissions := t.submissions ++ [.rest data len n]} := by
  have positive : 0 < (Locals.after data len n).remain_write := by
    dsimp only [Locals.after]
    omega
  have whole : nbytes (len - n) = len - n := nbytes_eq (Int.le_of_lt positive) (by omega)
  unfold loop Submission.rest
  rw [if_pos positive]
  dsimp only [Locals.after]
  rw [whole]

theorem begin_after (call : Call) (fits : (len : Int) ≤ int.highest) (data : Nat) :
    begin call data len = loop ⟨.fellOff,[],0⟩ (.after data len 0) := by
  unfold begin Locals.after
  rw [counter_eq call (Int.natCast_nonneg _) fits]
  simp

theorem transferred_after (fits : (len : Int) ≤ int.highest) (some : 0 < v) (most : v ≤ len - n) (call : Call) (data : Nat) :
    t.transferred call.counter (.after data len n) v =
      if n + v.toNat = len then {t with stage := .returned len} else t.loop (.after data len (n + v.toNat)) := by
  have amount : (v.toNat : Int) = v := Int.toNat_of_nonneg (Int.le_of_lt some)
  have left : (len - n : Int) - v = len - (n + v.toNat : Nat) := by omega
  have counted : call.counter.convert (len - n - v) = len - n - v := counter_eq call (by omega) (by omega)
  have kept : int.convert (len - n - v) = len - n - v := counter_eq .read (by omega) (by omega)
  have total : ssize_t.convert len = len := IntType.convert_of_holds (IntType.holds_of_le (Int.natCast_nonneg _) (Int.le_trans fits (by decide)))
  unfold transferred
  dsimp only [Locals.after]
  rw [counted,kept,total,left,Nat.add_assoc]
  refine if_congr ?_ rfl rfl
  omega

-- What a completion does to a coroutine that has n bytes: it returns the total,
-- goes round with what has come, or closes.
inductive Turn (t : UringTransfer) (data len n : Nat) (c : Completion) : UringTransfer → Prop where
  | whole : n + c.res.toNat = len → Turn t data len n c {t with stage := .returned len}
  | again : n + c.res.toNat < len → Turn t data len n c (t.loop (.after data len (n + c.res.toNat)))
  | closed (result : Int) : c.res ≤ 0 → result ≤ 0 → Turn t data len n c (t.close result)

theorem resume_turn (fits : (len : Int) ≤ int.highest) (waits : t.stage = .suspended (.after data len n)) (more : n < len)
    (most : c.res ≤ len - n) : Turn t data len n c (t.resume call c) := by
  have progress : 0 < c.res → Turn t data len n c (t.transferred call.counter (.after data len n) c.res) := by
    intro some
    rw [transferred_after fits some most]
    split
    · rename_i all
      exact .whole all
    · exact .again (by omega)
  have nothing : ¬0 < c.res → Turn t data len n c (t.loop (.after data len n)) := by
    intro none
    have zero : n + c.res.toNat = n := by omega
    have turn : Turn t data len n c (t.loop (.after data len (n + c.res.toNat))) := .again (by omega)
    rw [zero] at turn
    exact turn
  unfold resume
  rw [waits]
  cases call with
  | read =>
    dsimp only [read]
    split
    · rename_i some
      exact progress some
    · rename_i none
      split
      · exact .closed 0 (by omega) (Int.le_refl 0)
      · split
        · exact nothing none
        · exact .closed _ (by omega) (by omega)
  | send =>
    dsimp only [send]
    split
    · rename_i some
      exact progress some
    · rename_i none
      split
      · exact nothing none
      · split
        · exact nothing none
        · exact .closed _ (by omega) (by omega)

-- The connection's own account of a completion, with errno by its name.
def named (errno : Int) : Errno :=
  if errno = EWOULDBLOCK then .EWOULDBLOCK
  else if errno = 32 then .EPIPE
  else if errno = 104 then .ECONNRESET
  else .other errno.toNat

theorem retry_named (errno : Int) : UringTcpConnection.retry (named errno) = retries errno := by
  by_cases would : errno = EWOULDBLOCK
  · rw [would]
    rfl
  by_cases interrupted : errno = EINTR
  · rw [interrupted]
    rfl
  have other : errno.toNat ≠ 4 := by
    unfold EINTR at interrupted
    omega
  have stays : retries errno = false := by
    unfold retries
    simp [would,interrupted,show errno ≠ EAGAIN from would]
  rw [stays]
  unfold named
  rw [if_neg would]
  split
  · rfl
  · split
    · rfl
    · simp [UringTcpConnection.retry,NewMuduo.EINTR,other]

def Call.op : Call → Nat → Nat → UringOp
  | .read => .read
  | .send => .send

-- What the connection is when the coroutine has gone on from before to after.
def reflect (conn : UringTcpConnection) (call : Call) (before after : UringTransfer) : UringTcpConnection :=
  let conn := if before.closes < after.closes then conn.handleClose else conn
  match after.stage with
  | .suspended l => {conn with op := some (call.op l.total.toNat l.remain_write.toNat)}
  | .returned result => conn.giveBack result
  | .fellOff => conn

section reflect
variable {conn : UringTcpConnection}

theorem reflect_loop (fits : (len : Int) ≤ int.highest) (more : n < len) (conn : UringTcpConnection) (call : Call) (t : UringTransfer)
    (data : Nat) : reflect conn call t (t.loop (.after data len n)) = {conn with op := some (call.op len (len - n))} := by
  rw [loop_after fits more]
  unfold reflect
  dsimp only [Locals.after]
  rw [if_neg (Nat.lt_irrefl _),Int.toNat_natCast]
  congr 3
  omega

theorem reflect_close (conn : UringTcpConnection) (call : Call) (t : UringTransfer) (result : Int) :
    reflect conn call t (t.close result) = conn.handleClose.giveBack result := by
  unfold reflect close
  rw [if_pos (Nat.lt_succ_self _)]

theorem reflect_transferred (fits : (len : Int) ≤ int.highest) (some : 0 < v) (most : v ≤ len - n) (conn : UringTcpConnection) (call : Call)
    (t : UringTransfer) (data : Nat) :
    reflect conn call t (t.transferred call.counter (.after data len n) v) =
      if len - n - v.toNat = 0 then conn.giveBack len else {conn with op := Option.some (call.op len (len - n - v.toNat))} := by
  rw [transferred_after fits some most]
  split
  · rename_i all
    rw [if_pos (by omega)]
    unfold reflect
    rw [if_neg (Nat.lt_irrefl _)]
  · rename_i part
    rw [if_neg (by omega),reflect_loop fits (by omega),Nat.sub_sub]

-- The connection follows the coroutine.
theorem completed_reflects {res errno : Int} (fits : (len : Int) ≤ int.highest) (waits : t.stage = .suspended (.after data len n))
    (more : n < len) (most : res ≤ len - n) (here : conn.op = some (call.op len (len - n))) :
    conn.next (.completed res (named errno)) = some (reflect conn call t (t.resume call ⟨res,errno⟩)) := by
  have again : reflect conn call t (t.loop (.after data len n)) = conn := by
    rw [reflect_loop fits more,← here]
  have admitted : res ≤ (len - n : Nat) := by omega
  unfold resume
  rw [waits]
  cases call with
  | read =>
    have op : conn.op = some (.read len (len - n)) := here
    simp only [UringTcpConnection.next,op,admitted,if_true,Option.some.injEq]
    unfold UringTcpConnection.readCompleted read
    rw [retry_named]
    by_cases some : 0 < res
    · rw [if_pos some,if_pos some,reflect_transferred fits some most]
      rfl
    · rw [if_neg some,if_neg some]
      split
      · exact (reflect_close _ _ _ _).symm
      · split
        · exact again.symm
        · exact (reflect_close _ _ _ _).symm
  | send =>
    have op : conn.op = some (.send len (len - n)) := here
    simp only [UringTcpConnection.next,op,admitted,if_true,Option.some.injEq]
    unfold UringTcpConnection.sendCompleted send
    rw [retry_named]
    by_cases some : 0 < res
    · rw [if_pos some,if_pos some,reflect_transferred fits some most]
      rfl
    · rw [if_neg some,if_neg some]
      split
      · exact again.symm
      · split
        · exact again.symm
        · exact (reflect_close _ _ _ _).symm

end reflect

end whole

end UringTransfer
end NewMuduo
