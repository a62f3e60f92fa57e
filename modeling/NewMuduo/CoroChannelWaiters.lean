import NewMuduo.CoroTcpConnection
import Mathlib.Data.List.Nodup

namespace NewMuduo.CoroChannel

def disableReading (c : CoroChannel) : CoroChannel := {c with reading := false}.request .disableReading

-- A CoroChannel with its callbacks and waiters. A handle is the number of its
-- call of waitReadable or waitWritable, waits of them so far; scheduled has what
-- went to scheduleResume.
structure Waiting where
  channel : CoroChannel
  readCallback : Bool
  writeCallback : Bool
  closeCallback : Bool
  readWaiter : Option Nat
  writeWaiter : Option Nat
  waits : Nat
  scheduled : List Nat
  deriving DecidableEq, Repr

-- What user code can do with the channel, from its callbacks as well.
inductive Op where
  | waitReadable
  | waitWritable
  | enableReading
  | disableReading
  | enableWriting
  | disableWriting
  | disableAll
  | setReadCallback (present : Bool)
  | setWriteCallback (present : Bool)
  | setCloseCallback (present : Bool)
  deriving DecidableEq, Repr

namespace Waiting

def new (fd : Nat) : Waiting := ⟨.new fd,false,false,false,none,none,0,[]⟩

-- One read waiter and one write waiter at a time.
def waitReadable (s : Waiting) : Option Waiting :=
  if s.readWaiter.isNone then
    some {s with readWaiter := some s.waits,waits := s.waits + 1,channel := s.channel.enableReading}
  else none

def waitWritable (s : Waiting) : Option Waiting :=
  if s.writeWaiter.isNone then
    some {s with writeWaiter := some s.waits,waits := s.waits + 1,channel := s.channel.enableWriting}
  else none

def perform (s : Waiting) : Op → Option Waiting
  | .waitReadable => s.waitReadable
  | .waitWritable => s.waitWritable
  | .enableReading => some {s with channel := s.channel.enableReading}
  | .disableReading => some {s with channel := s.channel.disableReading}
  | .enableWriting => some {s with channel := s.channel.enableWriting}
  | .disableWriting => some {s with channel := s.channel.disableWriting}
  | .disableAll => some {s with channel := s.channel.disableAll}
  | .setReadCallback present => some {s with readCallback := present}
  | .setWriteCallback present => some {s with writeCallback := present}
  | .setCloseCallback present => some {s with closeCallback := present}

-- A callback of the user.
def userCode (s : Waiting) (ops : List Op) : Option Waiting := ops.foldlM perform s

def scheduleResume (s : Waiting) (h : Nat) : Waiting := {s with scheduled := s.scheduled ++ [h]}

def handleRead (s : Waiting) (ops : List Op) : Option Waiting :=
  match s.readWaiter with
  | some h => some ({s with readWaiter := none,channel := s.channel.disableReading}.scheduleResume h)
  | none => if s.readCallback then s.userCode ops else some s

def handleWrite (s : Waiting) (ops : List Op) : Option Waiting :=
  match s.writeWaiter with
  | some h => some ({s with writeWaiter := none,channel := s.channel.disableWriting}.scheduleResume h)
  | none => if s.writeCallback then s.userCode ops else some s

-- The waiter that handleClose looks at, then closeCallback_.
def resumeReader (s : Waiting) : Waiting :=
  match s.readWaiter with
  | some h => {s with readWaiter := none}.scheduleResume h
  | none => s

def handleClose (s : Waiting) (ops : List Op) : Option Waiting :=
  if s.closeCallback then s.resumeReader.userCode ops else some s.resumeReader

end Waiting

-- The tests of Channel::handleEventWithGuard.
def closes (revents : BitVec 32) : Bool := hasAny revents EPOLLHUP && !hasAny revents EPOLLIN
def readable (revents : BitVec 32) : Bool := hasAny revents (EPOLLIN ||| EPOLLPRI ||| EPOLLRDHUP)
def writable (revents : BitVec 32) : Bool := hasAny revents EPOLLOUT

namespace Waiting

-- What user code does in closeCallback_, readCallback_ and writeCallback_ where
-- they are called. There is no errorCallback_.
def handleEventWithGuard (s : Waiting) (revents : BitVec 32) (onClose onRead onWrite : List Op) : Option Waiting := do
  let s ← (if closes revents then s.handleClose onClose else some s)
  let s ← (if readable revents then s.handleRead onRead else some s)
  if writable revents then s.handleWrite onWrite else some s

end Waiting

-- remove() is called between events: ~Channel asserts !eventHandling_.
inductive Label where
  | user (op : Op)
  | handleEvent (revents : BitVec 32) (onClose onRead onWrite : List Op)
  | remove
  deriving DecidableEq, Repr

namespace Waiting
variable {s after : Waiting} {w : Nat} {ops : List Op}

def next (s : Waiting) : Label → Option Waiting
  | .user op => s.perform op
  | .handleEvent revents onClose onRead onWrite =>
    if s.channel.channel.isSome then s.handleEventWithGuard revents onClose onRead onWrite else none
  | .remove => some {s with channel := s.channel.remove}

def machine : Machine Waiting Label where
  start s := ∃ fd, s = new fd
  next := next

-- Every handle is registered or scheduled, and only once.
structure Valid (s : Waiting) : Prop where
  once : s.scheduled.Nodup
  known : ∀ w ∈ s.scheduled, w < s.waits
  reads : ∀ w, s.readWaiter = some w → w < s.waits ∧ w ∉ s.scheduled
  writes : ∀ w, s.writeWaiter = some w → w < s.waits ∧ w ∉ s.scheduled
  apart : ∀ w, s.readWaiter = some w → s.writeWaiter ≠ some w

-- What nothing but a handler of its own takes back.
structure Keeps (s after : Waiting) : Prop where
  valid : Valid s → Valid after
  grows : ∀ w ∈ s.scheduled, w ∈ after.scheduled
  writes : ∀ w, s.writeWaiter = some w → after.writeWaiter = some w

theorem Keeps.refl (s : Waiting) : Keeps s s := ⟨id,fun _ => id,fun _ => id⟩

theorem Keeps.trans {middle : Waiting} (first : Keeps s middle) (second : Keeps middle after) : Keeps s after :=
  ⟨fun valid => second.valid (first.valid valid),fun w old => second.grows w (first.grows w old),
    fun w old => second.writes w (first.writes w old)⟩

theorem Valid.new (fd : Nat) : Valid (new fd) :=
  ⟨.nil,fun _ absent => (by cases absent),fun _ absent => (by cases absent),fun _ absent => (by cases absent),fun _ absent => (by cases absent)⟩

theorem waitReadable_keeps (taken : s.waitReadable = some after) : Keeps s after := by
  unfold waitReadable at taken
  split at taken <;> cases taken
  refine ⟨fun old => ⟨old.once,?_,?_,?_,?_⟩,fun _ => id,fun _ => id⟩
  · exact fun w member => Nat.lt_succ_of_lt (old.known w member)
  · intro w same
    cases same
    exact ⟨Nat.lt_succ_self _,fun member => absurd (old.known _ member) (Nat.lt_irrefl _)⟩
  · exact fun w same => ⟨Nat.lt_succ_of_lt (old.writes w same).1,(old.writes w same).2⟩
  · intro w same other
    cases same
    exact absurd (old.writes _ other).1 (Nat.lt_irrefl _)

theorem waitWritable_keeps (taken : s.waitWritable = some after) : Keeps s after := by
  unfold waitWritable at taken
  split at taken <;> cases taken
  rename_i free
  refine ⟨fun old => ⟨old.once,?_,?_,?_,?_⟩,fun _ => id,fun w same => ?_⟩
  · exact fun w member => Nat.lt_succ_of_lt (old.known w member)
  · exact fun w same => ⟨Nat.lt_succ_of_lt (old.reads w same).1,(old.reads w same).2⟩
  · intro w same
    cases same
    exact ⟨Nat.lt_succ_self _,fun member => absurd (old.known _ member) (Nat.lt_irrefl _)⟩
  · intro w same other
    cases other
    exact absurd (old.reads _ same).1 (Nat.lt_irrefl _)
  · rw [same] at free
    cases free

theorem perform_keeps {op : Op} (taken : s.perform op = some after) : Keeps s after := by
  cases op with
  | waitReadable => exact waitReadable_keeps taken
  | waitWritable => exact waitWritable_keeps taken
  | _ =>
    cases taken
    exact ⟨fun old => ⟨old.once,old.known,old.reads,old.writes,old.apart⟩,fun _ => id,fun _ => id⟩

theorem userCode_keeps (taken : s.userCode ops = some after) : Keeps s after := by
  unfold userCode at taken
  induction ops generalizing s with
  | nil => cases Option.some.inj taken; exact .refl _
  | cons op rest ih =>
    rw [List.foldlM_cons] at taken
    obtain ⟨middle,first,taken⟩ := Option.bind_eq_some_iff.mp taken
    exact (perform_keeps first).trans (ih taken)

-- One more handle goes to the scheduler.
theorem Valid.schedules (old : Valid s) (below : w < s.waits) (fresh : w ∉ s.scheduled) :
    (s.scheduled ++ [w]).Nodup ∧ ∀ v ∈ s.scheduled ++ [w], v < s.waits := by
  constructor
  · refine List.nodup_append.mpr ⟨old.once,List.nodup_singleton w,fun v member u last same => fresh ?_⟩
    rw [← List.mem_singleton.mp last,← same]
    exact member
  · exact List.forall_mem_append.mpr ⟨old.known,fun v last => List.mem_singleton.mp last ▸ below⟩

theorem still_absent {v : Nat} (absent : v ∉ s.scheduled) (apart : v ≠ w) : v ∉ s.scheduled ++ [w] := by
  rw [List.mem_append,List.mem_singleton,not_or]
  exact ⟨absent,apart⟩

theorem Valid.resumesReader {channel : CoroChannel} (old : Valid s) (reader : s.readWaiter = some w) :
    Valid ({s with readWaiter := none,channel := channel}.scheduleResume w) := by
  obtain ⟨below,fresh⟩ := old.reads w reader
  obtain ⟨once,known⟩ := old.schedules below fresh
  refine ⟨once,known,fun _ absent => (by cases absent),fun v writer => ?_,fun _ absent => (by cases absent)⟩
  exact ⟨(old.writes v writer).1,still_absent (old.writes v writer).2 fun same => old.apart w reader (same ▸ writer)⟩

theorem Valid.resumesWriter {channel : CoroChannel} (old : Valid s) (writer : s.writeWaiter = some w) :
    Valid ({s with writeWaiter := none,channel := channel}.scheduleResume w) := by
  obtain ⟨below,fresh⟩ := old.writes w writer
  obtain ⟨once,known⟩ := old.schedules below fresh
  refine ⟨once,known,fun v reader => ?_,fun _ absent => (by cases absent),fun _ _ absent => (by cases absent)⟩
  exact ⟨(old.reads v reader).1,still_absent (old.reads v reader).2 fun same => old.apart v reader (same ▸ writer)⟩

theorem resumes_keeps {channel : CoroChannel} (reader : s.readWaiter = some w) :
    Keeps s ({s with readWaiter := none,channel := channel}.scheduleResume w) :=
  ⟨fun old => old.resumesReader reader,fun _ => List.mem_append_left _,fun _ => id⟩

theorem resumeReader_keeps (s : Waiting) : Keeps s s.resumeReader := by
  unfold resumeReader
  split
  · rename_i h reader
    exact resumes_keeps reader
  · exact .refl s

theorem resumeReader_schedules (reader : s.readWaiter = some w) : w ∈ s.resumeReader.scheduled := by
  unfold resumeReader
  rw [reader]
  exact List.mem_append_right _ (List.mem_singleton_self w)

theorem handleClose_keeps (taken : s.handleClose ops = some after) : Keeps s.resumeReader after := by
  unfold handleClose at taken
  split at taken
  · exact userCode_keeps taken
  · cases taken
    exact .refl _

theorem handleRead_keeps (taken : s.handleRead ops = some after) : Keeps s after := by
  unfold handleRead at taken
  split at taken
  · rename_i h reader
    cases taken
    exact resumes_keeps reader
  · split at taken
    · exact userCode_keeps taken
    · cases taken
      exact .refl s

theorem handleRead_schedules (taken : s.handleRead ops = some after) (reader : s.readWaiter = some w) : w ∈ after.scheduled := by
  unfold handleRead at taken
  rw [reader] at taken
  cases taken
  exact List.mem_append_right _ (List.mem_singleton_self w)

theorem handleWrite_valid (old : Valid s) (taken : s.handleWrite ops = some after) : Valid after := by
  unfold handleWrite at taken
  split at taken
  · rename_i h writer
    cases taken
    exact old.resumesWriter writer
  · split at taken
    · exact (userCode_keeps taken).valid old
    · cases taken
      exact old

theorem handleWrite_grows (taken : s.handleWrite ops = some after) (before : w ∈ s.scheduled) : w ∈ after.scheduled := by
  unfold handleWrite at taken
  split at taken
  · cases taken
    exact List.mem_append_left _ before
  · split at taken
    · exact (userCode_keeps taken).grows w before
    · cases taken
      exact before

theorem handleWrite_schedules (taken : s.handleWrite ops = some after) (writer : s.writeWaiter = some w) : w ∈ after.scheduled := by
  unfold handleWrite at taken
  rw [writer] at taken
  cases taken
  exact List.mem_append_right _ (List.mem_singleton_self w)

-- The state before the last test of handleEventWithGuard.
theorem handleEventWithGuard_parts {revents : BitVec 32} {onClose onRead onWrite : List Op}
    (taken : s.handleEventWithGuard revents onClose onRead onWrite = some after) :
    ∃ middle, Keeps s middle ∧ (if writable revents then middle.handleWrite onWrite else some middle) = some after ∧
      (closes revents = true ∨ readable revents = true → ∀ w, s.readWaiter = some w → w ∈ middle.scheduled) := by
  unfold handleEventWithGuard at taken
  obtain ⟨closed,first,rest⟩ := Option.bind_eq_some_iff.mp taken
  obtain ⟨middle,second,last⟩ := Option.bind_eq_some_iff.mp rest
  have reads : Keeps closed middle := by
    split at second
    · exact handleRead_keeps second
    · cases second
      exact .refl _
  split at first
  · have kept := handleClose_keeps first
    refine ⟨middle,((resumeReader_keeps s).trans kept).trans reads,last,fun _ w reader => ?_⟩
    exact reads.grows w (kept.grows w (resumeReader_schedules reader))
  · rename_i open_end
    cases first
    refine ⟨middle,reads,last,fun ready w reader => ?_⟩
    rcases ready with ready | ready
    · exact absurd ready open_end
    · rw [if_pos ready] at second
      exact handleRead_schedules second reader

theorem handleEventWithGuard_valid {revents : BitVec 32} {onClose onRead onWrite : List Op} (old : Valid s)
    (taken : s.handleEventWithGuard revents onClose onRead onWrite = some after) : Valid after := by
  obtain ⟨middle,kept,last,_⟩ := handleEventWithGuard_parts taken
  split at last
  · exact handleWrite_valid (kept.valid old) last
  · cases last
    exact kept.valid old

theorem Valid.next {label : Label} (old : Valid s) (taken : machine.next s label = some after) : Valid after := by
  cases label with
  | user op => exact (perform_keeps taken).valid old
  | handleEvent revents onClose onRead onWrite =>
    simp only [machine,Waiting.next] at taken
    split at taken
    · exact handleEventWithGuard_valid old taken
    · cases taken
  | remove =>
    cases taken
    exact ⟨old.once,old.known,old.reads,old.writes,old.apart⟩

-- The waiters that a dispatch has to schedule.
def Due (s : Waiting) (label : Label) (w : Nat) : Prop :=
  match label with
  | .handleEvent revents _ _ _ => s.readWaiter = some w ∧ (closes revents = true ∨ readable revents = true) ∨
      s.writeWaiter = some w ∧ (closes revents = true ∨ writable revents = true)
  | _ => False

def Serves (s : Waiting) (label : Label) : Prop :=
  ∀ after, machine.next s label = some after → after.scheduled.Nodup ∧ ∀ w, Due s label w → w ∈ after.scheduled

-- A dispatch that closes finds no write waiter, or has EPOLLOUT as well.
def NoWriterLeft (s : Waiting) : Label → Prop
  | .handleEvent revents _ _ _ => closes revents = true → writable revents = false → s.writeWaiter = none
  | _ => True

instance (s : Waiting) (label : Label) : Decidable (s.NoWriterLeft label) := by
  cases label <;> (unfold NoWriterLeft; infer_instance)

theorem Valid.serves {label : Label} (old : Valid s) (none : NoWriterLeft s label) : Serves s label := by
  intro after taken
  refine ⟨(old.next taken).once,fun w due => ?_⟩
  cases label with
  | handleEvent revents onClose onRead onWrite =>
    simp only [machine,Waiting.next] at taken
    split at taken
    · obtain ⟨middle,kept,last,reader⟩ := handleEventWithGuard_parts taken
      rcases due with ⟨waits,ready⟩ | ⟨waits,ready⟩
      · have resumed := reader ready w waits
        split at last
        · exact handleWrite_grows last resumed
        · cases last
          exact resumed
      · have out : writable revents = true := by
          rcases ready with closed | out
          · by_contra silent
            cases (none closed (Bool.of_not_eq_true silent)).symm.trans waits
          · exact out
        rw [if_pos out] at last
        exact handleWrite_schedules last (kept.writes w waits)
    · cases taken
  | user | remove => exact due.elim

theorem Valid.leaves {label : Label} (old : Valid s) (taken : machine.next s label = some after) (serves : Serves s label) :
    NoWriterLeft s label := by
  cases label with
  | handleEvent revents onClose onRead onWrite =>
    intro closed silent
    by_contra waits
    obtain ⟨w,writer⟩ := Option.ne_none_iff_exists'.mp waits
    have resumed := (serves after taken).2 w (.inr ⟨writer,.inl closed⟩)
    simp only [machine,Waiting.next] at taken
    split at taken
    · obtain ⟨middle,kept,last,_⟩ := handleEventWithGuard_parts taken
      rw [silent] at last
      cases last
      exact ((kept.valid old).writes w (kept.writes w writer)).2 resumed
    · cases taken
  | user | remove => trivial

section runs
variable {labels : List Label} {final : Waiting}

theorem serves_iff (origin : machine.start s) (ran : machine.run s labels = some final) :
    machine.Meets Serves s labels ↔ machine.Meets NoWriterLeft s labels := by
  have valid : Valid s := by
    obtain ⟨fd,rfl⟩ := origin
    exact .new fd
  constructor
  · exact Machine.meets_of_meets (fun _ _ _ old _ => old.next) (fun _ _ _ old serves taken => old.leaves taken serves) valid ran
  · exact Machine.meets_of_meets (fun _ _ _ old _ => old.next) (fun _ _ _ old none _ => old.serves none) valid ran

-- No waiter is scheduled twice; all that are due are scheduled unless a close
-- finds a write waiter and no EPOLLOUT.
theorem waiters_served_iff (origin : machine.start s) (ran : machine.run s labels = some final) :
    machine.Throughout (fun s => s.scheduled.Nodup) s labels ∧
    (machine.Meets Serves s labels ↔ machine.Meets NoWriterLeft s labels) := by
  have valid : Valid s := by
    obtain ⟨fd,rfl⟩ := origin
    exact .new fd
  have anything : machine.Meets (fun _ _ => True) s labels := Machine.meets_labels fun _ _ _ => trivial
  exact ⟨Machine.throughout_of_meets (fun _ => Valid.once) (fun _ _ _ old _ => old.next) valid anything,serves_iff origin ran⟩

end runs

-- Both wait, data comes, the reader waits again, and then EPOLLHUP with EPOLLOUT.
def bothServed : List Label :=
  [.user .waitReadable,.user .waitWritable,.handleEvent EPOLLIN [] [] [],.user .waitReadable,
    .handleEvent (EPOLLHUP ||| EPOLLOUT) [] [] [],.remove]

theorem both_served : ∃ s, machine.run (new 3) bothServed = some s ∧ s.scheduled = [0,2,1] ∧
    machine.Throughout (fun s => s.scheduled.Nodup) (new 3) bothServed ∧ machine.Meets Serves (new 3) bothServed := by
  have found : (machine.run (new 3) bothServed).map (fun s => s.scheduled) = some [0,2,1] := by decide +kernel
  obtain ⟨s,ran,scheduled⟩ := Option.map_eq_some_iff.mp found
  obtain ⟨once,served⟩ := waiters_served_iff ⟨3,rfl⟩ ran
  exact ⟨s,ran,scheduled,once,served.mpr (by decide +kernel)⟩

def writerHungUp : List Label := [.user .waitWritable,.handleEvent EPOLLHUP [] [] []]

theorem writer_left_waiting : ∃ s, machine.run (new 3) writerHungUp = some s ∧ s.writeWaiter = some 0 ∧ s.scheduled = [] ∧
    ¬machine.Meets Serves (new 3) writerHungUp := by
  have found : (machine.run (new 3) writerHungUp).map (fun s => (s.writeWaiter,s.scheduled)) = some (some 0,[]) := by
    decide +kernel
  obtain ⟨s,ran,parts⟩ := Option.map_eq_some_iff.mp found
  obtain ⟨waits,scheduled⟩ := Prod.mk.inj parts
  refine ⟨s,ran,waits,scheduled,?_⟩
  rw [serves_iff ⟨3,rfl⟩ ran]
  decide +kernel

end Waiting
end NewMuduo.CoroChannel
