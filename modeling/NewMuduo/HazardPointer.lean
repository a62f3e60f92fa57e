import NewMuduo.Machine
import Mathlib.Logic.Function.Basic
import Mathlib.Algebra.Order.Ring.Int

namespace NewMuduo

def kMaxThreads : Nat := 128
def kMaxHazardPointers : Nat := 2
def kRetireThreshold : Nat := 64

instance : NeZero kMaxThreads := ⟨by decide⟩
instance : NeZero kMaxHazardPointers := ⟨by decide⟩

-- base/HazardPointer.h: one thread's record; null is none.
structure ThreadRecord (Node : Type) where
  hazardPointers : Fin kMaxHazardPointers → Option Node
  retireList : List Node
  active : Bool

inductive HazardOp (Node : Type) where
  | protect (idx : Fin kMaxHazardPointers) (p : Option Node)
  | clear (idx : Fin kMaxHazardPointers)
  | retire (p : Node)

-- A thread at each atomic access of an operation, with the record it uses;
-- reads are the slot values of its scan so far.
inductive HazardCall (Node : Type) where
  | idle
  | begins (op : HazardOp Node)
  | activate (slot : Fin kMaxThreads) (op : HazardOp Node)
  | acts (thr : Fin kMaxThreads) (op : HazardOp Node)
  | scanActive (thr : Fin kMaxThreads) (i : Nat) (reads : List (Option Node)) (hazardous : List Node)
  | scanSlot (thr i : Fin kMaxThreads) (j : Fin kMaxHazardPointers) (reads : List (Option Node)) (hazardous : List Node)
  | sweep (thr : Fin kMaxThreads) (reads : List (Option Node)) (hazardous : List Node) (pos : Nat)
  | aborted (op : HazardOp Node)

-- thr is the thread_local pointer.
structure HazardThread (Node : Type) where
  thr : Option (Fin kMaxThreads)
  call : HazardCall Node

-- A node as its clients have it; leaving is a retire that has begun.
inductive NodeLife where
  | free
  | allocated
  | reachable
  | leaving
  | retired
deriving DecidableEq

-- A scan that ended: what it read and what it left in the list.
structure Scan (Node : Type) where
  reads : List (Option Node)
  left : List Node

-- The records and the clients' nodes. validated marks the slots whose owner has
-- seen their node reachable since the store; the counts and scans are a record.
structure HazardPointerDomain (Tid Node : Type) where
  records : Fin kMaxThreads → ThreadRecord Node
  nextSlot : Nat
  threads : Tid → HazardThread Node
  life : Node → NodeLife
  validated : Fin kMaxThreads → Fin kMaxHazardPointers → Bool
  retires : Node → Nat
  deletes : Node → Nat
  scans : List (Scan Node)

namespace HazardPointerDomain
variable {Tid Node : Type} [DecidableEq Tid] [DecidableEq Node]

def put (s : HazardPointerDomain Tid Node) (t : Tid) (call : HazardCall Node) : HazardPointerDomain Tid Node :=
  {s with threads := Function.update s.threads t {s.threads t with call := call}}

def setRecord (s : HazardPointerDomain Tid Node) (r : Fin kMaxThreads) (new : ThreadRecord Node) : HazardPointerDomain Tid Node :=
  {s with records := Function.update s.records r new}

-- hazardPointers[idx].store: what the slot held before is no longer protected.
def store (s : HazardPointerDomain Tid Node) (r : Fin kMaxThreads) (idx : Fin kMaxHazardPointers) (p : Option Node) :
    HazardPointerDomain Tid Node :=
  {s.setRecord r {s.records r with hazardPointers := Function.update (s.records r).hazardPointers idx p} with
    validated := Function.update s.validated r (Function.update (s.validated r) idx false)}

def setRetireList (s : HazardPointerDomain Tid Node) (r : Fin kMaxThreads) (nodes : List Node) : HazardPointerDomain Tid Node :=
  s.setRecord r {s.records r with retireList := nodes}

def isHazardous (p : Node) (hazardous : List Node) : Bool := hazardous.any fun hp => decide (hp = p)

def registerThread (s : HazardPointerDomain Tid Node) (t : Tid) (op : HazardOp Node) : HazardPointerDomain Tid Node :=
  let call := if inside : s.nextSlot < kMaxThreads then .activate ⟨s.nextSlot,inside⟩ op else .aborted op
  {s.put t call with nextSlot := s.nextSlot + 1}

-- retire after getThreadRecord; the scan begins at the threshold.
def retire (s : HazardPointerDomain Tid Node) (t : Tid) (r : Fin kMaxThreads) (p : Node) : HazardPointerDomain Tid Node :=
  let nodes := (s.records r).retireList ++ [p]
  {(s.setRetireList r nodes).put t (if kRetireThreshold ≤ nodes.length then .scanActive r 0 [] [] else .idle) with
    life := Function.update s.life p .retired
    retires := Function.update s.retires p (s.retires p + 1)}

-- One turn of scan's second loop; the end of the list ends the scan.
def sweep (s : HazardPointerDomain Tid Node) (t : Tid) (r : Fin kMaxThreads) (reads : List (Option Node)) (hazardous : List Node)
    (pos : Nat) : HazardPointerDomain Tid Node :=
  match (s.records r).retireList[pos]? with
  | none => {s.put t .idle with scans := s.scans ++ [⟨reads,(s.records r).retireList⟩]}
  | some p =>
    if isHazardous p hazardous then s.put t (.sweep r reads hazardous (pos + 1))
    else {s.setRetireList r ((s.records r).retireList.eraseIdx pos) with
      life := Function.update s.life p .free
      deletes := Function.update s.deletes p (s.deletes p + 1)}

def step (s : HazardPointerDomain Tid Node) (t : Tid) : HazardPointerDomain Tid Node :=
  match (s.threads t).call with
  | .idle => s
  | .aborted _ => s
  | .begins op =>
    match (s.threads t).thr with
    | none => s.registerThread t op
    | some r => s.put t (.acts r op)
  | .activate r op =>
    {s.setRecord r {s.records r with active := true} with
      threads := Function.update s.threads t ⟨some r,.acts r op⟩}
  | .acts r (.protect idx p) => (s.store r idx p).put t .idle
  | .acts r (.clear idx) => (s.store r idx none).put t .idle
  | .acts r (.retire p) => s.retire t r p
  | .scanActive r i reads hazardous =>
    if inside : i < kMaxThreads then
      if (s.records ⟨i,inside⟩).active then s.put t (.scanSlot r ⟨i,inside⟩ 0 reads hazardous)
      else s.put t (.scanActive r (i + 1) reads hazardous)
    else s.put t (.sweep r reads hazardous 0)
  | .scanSlot r i j reads hazardous =>
    let hp := (s.records i).hazardPointers j
    if inside : j.val + 1 < kMaxHazardPointers then
      s.put t (.scanSlot r i ⟨j.val + 1,inside⟩ (reads ++ [hp]) (hazardous ++ hp.toList))
    else s.put t (.scanActive r (i.val + 1) (reads ++ [hp]) (hazardous ++ hp.toList))
  | .sweep r reads hazardous pos => s.sweep t r reads hazardous pos

-- Calls, a client's look at the structure, and its changes of it.
inductive Label (Tid Node : Type) where
  | begin (t : Tid) (op : HazardOp Node)
  | observe (t : Tid) (idx : Fin kMaxHazardPointers)
  | new (p : Node)
  | link (p : Node)
  | unlink (p : Node)
  | step (t : Tid)

def HazardCall.isIdle : HazardCall Node → Bool
  | .idle => true
  | _ => false

-- The node in the slot of a thread's record.
def guards (s : HazardPointerDomain Tid Node) (t : Tid) (idx : Fin kMaxHazardPointers) : Option Node :=
  (s.threads t).thr.bind fun r => (s.records r).hazardPointers idx

def isReachable (s : HazardPointerDomain Tid Node) (p : Node) : Bool := decide (s.life p = .reachable)

-- Clients retire a node once, when it is not reachable.
def allowed (s : HazardPointerDomain Tid Node) : Label Tid Node → Bool
  | .begin t (.retire p) => HazardCall.isIdle (s.threads t).call && decide (s.life p = .allocated)
  | .begin t _ => HazardCall.isIdle (s.threads t).call
  | .observe t idx => HazardCall.isIdle (s.threads t).call && (s.guards t idx).any s.isReachable
  | .new p => decide (s.life p = .free)
  | .link p => decide (s.life p = .allocated)
  | .unlink p => decide (s.life p = .reachable)
  | .step _ => true

def setLife (s : HazardPointerDomain Tid Node) (p : Node) (life : NodeLife) : HazardPointerDomain Tid Node :=
  {s with life := Function.update s.life p life}

def apply (s : HazardPointerDomain Tid Node) : Label Tid Node → HazardPointerDomain Tid Node
  | .begin t (.retire p) => (s.setLife p .leaving).put t (.begins (.retire p))
  | .begin t op => s.put t (.begins op)
  | .observe t idx =>
    match (s.threads t).thr with
    | none => s
    | some r => {s with validated := Function.update s.validated r (Function.update (s.validated r) idx true)}
  | .new p => s.setLife p .allocated
  | .link p => s.setLife p .reachable
  | .unlink p => s.setLife p .allocated
  | .step t => s.step t

def new : HazardPointerDomain Tid Node :=
  ⟨fun _ => ⟨fun _ => none,[],false⟩,0,fun _ => ⟨none,.idle⟩,fun _ => .free,fun _ _ => false,fun _ => 0,fun _ => 0,[]⟩

def machine (Tid Node : Type) [DecidableEq Tid] [DecidableEq Node] : Machine (HazardPointerDomain Tid Node) (Label Tid Node) :=
  .guarded (· = new) (fun s label => s.allowed label = true) apply

-- The step that clears or overwrites a slot.
def storesTo : HazardCall Node → Option (Fin kMaxThreads × Fin kMaxHazardPointers)
  | .acts thr (.protect idx _) | .acts thr (.clear idx) => some (thr,idx)
  | _ => none

def Rewrites (r : Fin kMaxThreads) (idx : Fin kMaxHazardPointers) (s : HazardPointerDomain Tid Node) : Label Tid Node → Prop
  | .step t => storesTo (s.threads t).call = some (r,idx)
  | _ => False

end HazardPointerDomain
end NewMuduo
