import Mathlib.Data.Nat.Notation

namespace NewMuduo

def EPOLLIN : BitVec 32 := 0x001
def EPOLLPRI : BitVec 32 := 0x002
def EPOLLOUT : BitVec 32 := 0x004
def EPOLLERR : BitVec 32 := 0x008
def EPOLLHUP : BitVec 32 := 0x010
def EPOLLRDHUP : BitVec 32 := 0x2000
def EPOLLET : BitVec 32 := 0x80000000

-- A test such as (revents_ & EPOLLIN) of the source.
def hasAny (events bits : BitVec 32) : Bool := events &&& bits != 0

def kNoneEvent : BitVec 32 := 0
def kReadEvent : BitVec 32 := EPOLLIN ||| EPOLLPRI
def kWriteEvent : BitVec 32 := EPOLLOUT

-- net/Channel.h, the part the poller reads and writes. The callbacks, the tie
-- and revents_ belong to the dispatch of events.
structure Channel where
  fd : Nat
  events : BitVec 32
  index : Int
  et : Bool
  addedToLoop : Bool
  deriving DecidableEq, Repr

namespace Channel
variable {c : Channel}

def new (fd : Nat) : Channel := ⟨fd,kNoneEvent,-1,true,false⟩

def isNoneEvent (c : Channel) : Bool := c.events == kNoneEvent
def isReading (c : Channel) : Bool := hasAny c.events kReadEvent
def isWriting (c : Channel) : Bool := hasAny c.events kWriteEvent

-- The members that change events_ and then call update().
inductive Op where
  | enableReading
  | disableReading
  | enableWriting
  | disableWriting
  | disableAll
  deriving DecidableEq, Repr

def Op.interest (events : BitVec 32) : Op → BitVec 32
  | .enableReading => events ||| kReadEvent
  | .disableReading => events &&& ~~~kReadEvent
  | .enableWriting => events ||| kWriteEvent
  | .disableWriting => events &&& ~~~kWriteEvent
  | .disableAll => kNoneEvent

-- The channel as update() hands it to the loop.
def request (c : Channel) (op : Op) : Channel :=
  {c with events := op.interest c.events,addedToLoop := true}

@[simp] theorem request_fd (op : Op) : (c.request op).fd = c.fd := rfl
@[simp] theorem request_index (op : Op) : (c.request op).index = c.index := rfl
@[simp] theorem request_et (op : Op) : (c.request op).et = c.et := rfl
@[simp] theorem request_events (op : Op) : (c.request op).events = op.interest c.events := rfl

theorem isNoneEvent_iff : c.isNoneEvent = true ↔ c.events = kNoneEvent := by simp [isNoneEvent]

theorem none_not_reading (none : c.events = kNoneEvent) : c.isReading = false := by
  rw [isReading,none]; decide

theorem none_not_writing (none : c.events = kNoneEvent) : c.isWriting = false := by
  rw [isWriting,none]; decide

theorem hasAny_or (events bits other : BitVec 32) :
    hasAny events (bits ||| other) = (hasAny events bits || hasAny events other) := by
  have parts : events &&& (bits ||| other) = 0 ↔ events &&& bits = 0 ∧ events &&& other = 0 := by
    rw [BitVec.and_or_distrib_left]; exact BitVec.or_eq_zero_iff
  rw [Bool.eq_iff_iff,Bool.or_eq_true_iff]
  simp only [hasAny,bne_iff_ne,ne_eq,parts]
  exact Decidable.not_and_iff_or_not

theorem hasAny_or_same (events : BitVec 32) (nonzero : bits ≠ 0) : hasAny (events ||| bits) bits = true := by
  have kept : (events ||| bits) &&& bits = bits := by
    ext i; simp only [BitVec.getElem_and,BitVec.getElem_or]; cases events[i] <;> cases bits[i] <;> rfl
  rw [hasAny,kept]; simpa using nonzero

theorem hasAny_clear_same (events bits : BitVec 32) : hasAny (events &&& ~~~bits) bits = false := by
  have gone : events &&& ~~~bits &&& bits = 0 := by
    ext i; simp only [BitVec.getElem_and,BitVec.getElem_not]
    cases events[i] <;> cases bits[i] <;> simp
  rw [hasAny,gone]; rfl

theorem hasAny_or_other (events : BitVec 32) (apart : bits &&& other = 0) :
    hasAny (events ||| bits) other = hasAny events other := by
  have kept : (events ||| bits) &&& other = events &&& other := by
    ext i
    have here : (bits &&& other)[i] = (0 : BitVec 32)[i] := by rw [apart]
    simp only [BitVec.getElem_and,BitVec.getElem_or,BitVec.getElem_zero,
      show (0 : BitVec 32) = 0#32 from rfl] at here ⊢
    cases events[i] <;> cases h : bits[i] <;> cases o : other[i] <;> simp_all
  rw [hasAny,hasAny,kept]

theorem hasAny_clear_other (events : BitVec 32) (apart : bits &&& other = 0) :
    hasAny (events &&& ~~~bits) other = hasAny events other := by
  have kept : events &&& ~~~bits &&& other = events &&& other := by
    ext i
    have here : (bits &&& other)[i] = (0 : BitVec 32)[i] := by rw [apart]
    simp only [BitVec.getElem_and,BitVec.getElem_not,BitVec.getElem_zero,
      show (0 : BitVec 32) = 0#32 from rfl] at here ⊢
    cases events[i] <;> cases h : bits[i] <;> cases o : other[i] <;> simp_all
  rw [hasAny,hasAny,kept]

theorem hasAny_union (events more bits : BitVec 32) :
    hasAny (events ||| more) bits = (hasAny events bits || hasAny more bits) := by
  have swapped : ∀ x : BitVec 32, hasAny x bits = hasAny bits x := fun x => by
    rw [hasAny,hasAny,BitVec.and_comm]
  rw [swapped,swapped events,swapped more]
  exact hasAny_or bits events more

-- EPOLLIN and EPOLLPRI are asked for together.
def wantsInput (c : Channel) : Bool := hasAny c.events EPOLLIN

@[simp] theorem enableReading_input : (c.request .enableReading).wantsInput = true := by
  simp only [wantsInput,request_events,Op.interest,hasAny_union]
  exact Bool.or_eq_true_iff.mpr (.inr (by decide))

@[simp] theorem disableReading_input : (c.request .disableReading).wantsInput = false := by
  have cleared := hasAny_clear_same c.events kReadEvent
  rw [show kReadEvent = EPOLLIN ||| EPOLLPRI from rfl,hasAny_or,Bool.or_eq_false_iff] at cleared
  exact cleared.1

@[simp] theorem enableWriting_input : (c.request .enableWriting).wantsInput = c.wantsInput :=
  hasAny_or_other _ (by decide)
@[simp] theorem disableWriting_input : (c.request .disableWriting).wantsInput = c.wantsInput :=
  hasAny_clear_other _ (by decide)

-- What each request does to the two interests.
@[simp] theorem enableReading_reading : (c.request .enableReading).isReading = true :=
  hasAny_or_same _ (by decide)
@[simp] theorem enableReading_writing : (c.request .enableReading).isWriting = c.isWriting :=
  hasAny_or_other _ (by decide)
@[simp] theorem disableReading_reading : (c.request .disableReading).isReading = false :=
  hasAny_clear_same _ _
@[simp] theorem disableReading_writing : (c.request .disableReading).isWriting = c.isWriting :=
  hasAny_clear_other _ (by decide)
@[simp] theorem enableWriting_reading : (c.request .enableWriting).isReading = c.isReading :=
  hasAny_or_other _ (by decide)
@[simp] theorem enableWriting_writing : (c.request .enableWriting).isWriting = true :=
  hasAny_or_same _ (by decide)
@[simp] theorem disableWriting_reading : (c.request .disableWriting).isReading = c.isReading :=
  hasAny_clear_other _ (by decide)
@[simp] theorem disableWriting_writing : (c.request .disableWriting).isWriting = false :=
  hasAny_clear_same _ _

theorem enables_nonempty {op : Op} (enables : op = .enableReading ∨ op = .enableWriting) (c : Channel) :
    op.interest c.events ≠ kNoneEvent := by
  intro empty
  rcases enables with rfl | rfl
  · have reading := enableReading_reading (c := c)
    rw [none_not_reading empty] at reading
    cases reading
  · have writing := enableWriting_writing (c := c)
    rw [none_not_writing empty] at writing
    cases writing

end Channel
end NewMuduo
