import NewMuduo.Machine
import NewMuduo.TaggedPointer
import Mathlib.Logic.Function.Basic

namespace NewMuduo

-- allocate's refill loop: the class, the size asked for and the iteration.
structure Refill where
  cls : Fin 7
  size : Nat
  i : Nat

-- base/LFMemoryPool.h: a thread at each atomic step of allocate and deallocate,
-- with the locals it still needs. since is the number of pops the list had seen
-- when the word was loaded.
inductive PoolCall where
  | idle
  | popLoad (call : Refill)
  | popProtect (call : Refill) (oldPacked : BitVec 64) (since : Nat)
  | popVerify (call : Refill) (oldPacked : BitVec 64) (since : Nat)
  | popNext (call : Refill) (oldPacked : BitVec 64) (since : Nat)
  | popExchange (call : Refill) (oldPacked nextPtr : BitVec 64) (since : Nat)
  | popAgain (call : Refill) (oldPacked : BitVec 64) (since : Nat)
  | popWon (call : Refill) (head : BitVec 64)
  | take (cls : Fin 7) (size : Nat)
  | malloc (cls : Fin 7) (size : Nat)
  | drain (cls : Fin 7) (left : Nat)
  | pushLoad (cls : Fin 7) (left : Nat) (node : BitVec 64)
  | pushLink (cls : Fin 7) (left : Nat) (node oldPacked : BitVec 64)
  | pushExchange (cls : Fin 7) (left : Nat) (node oldPacked : BitVec 64)

-- The free lists' head words, the next field of the block at each address,
-- the thread caches (back of the vector first) and the first hazard slots; the
-- rest records what malloc returned, the blocks out to users by the size asked
-- for, and the pops of each list.
structure LFMemoryPool (Tid : Type) where
  headPacked : Fin 7 → BitVec 64
  next : BitVec 64 → BitVec 64
  caches : Tid → Fin 7 → List (BitVec 64)
  hazard : Tid → BitVec 64
  calls : Tid → PoolCall
  blocks : BitVec 64 → Option Nat
  users : Nat → List (BitVec 64)
  pops : Fin 7 → Nat

namespace LFMemoryPool
open TaggedPointer

def kMinClass : Nat := 6
def kMaxClass : Nat := 12
def kCacheCapacity : Nat := 16

-- sizeClass's loop; a size_t needs 64 turns at most.
def roundUp (size : Nat) : Nat → Nat → Nat → Nat
  | 0,_,cls => cls
  | turns + 1,aligned,cls => if aligned < size then roundUp size turns (aligned <<< 1) (cls + 1) else cls

def sizeClass (size : Nat) : Fin 7 :=
  let cls := roundUp size 64 1 0
  let raised := if cls < kMinClass then kMinClass else cls
  ⟨(if kMaxClass < raised then kMaxClass else raised) - kMinClass,by
    unfold kMaxClass kMinClass
    split <;> omega⟩

def blockSize (cls : Fin 7) : Nat := 1 <<< (cls.val + kMinClass)

variable {Tid : Type} [DecidableEq Tid]

def put (s : LFMemoryPool Tid) (t : Tid) (call : PoolCall) : LFMemoryPool Tid :=
  {s with calls := Function.update s.calls t call}

def setHazard (s : LFMemoryPool Tid) (t : Tid) (p : BitVec 64) : LFMemoryPool Tid :=
  {s with hazard := Function.update s.hazard t p}

def setCache (s : LFMemoryPool Tid) (t : Tid) (cls : Fin 7) (nodes : List (BitVec 64)) : LFMemoryPool Tid :=
  {s with caches := Function.update s.caches t (Function.update (s.caches t) cls nodes)}

def setUsers (s : LFMemoryPool Tid) (size : Nat) (ptrs : List (BitVec 64)) : LFMemoryPool Tid :=
  {s with users := Function.update s.users size ptrs}

def setHead (s : LFMemoryPool Tid) (cls : Fin 7) (packed : BitVec 64) : LFMemoryPool Tid :=
  {s with headPacked := Function.update s.headPacked cls packed}

-- The head of pop's loop: null means that the list is empty.
def loaded (call : Refill) (packed : BitVec 64) (since : Nat) : PoolCall :=
  if ptr packed = 0 then .take call.cls call.size else .popProtect call packed since

-- The word of a pop, with the tag one up modulo 2^16.
def popped (oldPacked nextPtr : BitVec 64) : BitVec 64 :=
  nextPtr ||| ((tag oldPacked).zeroExtend 64 + 1) <<< 48

-- allocate's end: the back of the local cache, or malloc.
def takeBack (s : LFMemoryPool Tid) (t : Tid) (cls : Fin 7) (size : Nat) (otherwise : PoolCall) : LFMemoryPool Tid :=
  match s.caches t cls with
  | [] => s.put t otherwise
  | node :: rest => ((s.setCache t cls rest).setUsers size (node :: s.users size)).put t .idle

def step (s : LFMemoryPool Tid) (t : Tid) (spurious : Bool) : LFMemoryPool Tid :=
  match s.calls t with
  | .idle => s
  | .malloc _ _ => s
  | .popLoad call => s.put t (loaded call (s.headPacked call.cls) (s.pops call.cls))
  | .popProtect call oldPacked since => (s.setHazard t (ptr oldPacked)).put t (.popVerify call oldPacked since)
  | .popVerify call oldPacked since =>
    let verifyPacked := s.headPacked call.cls
    if ptr oldPacked ≠ ptr verifyPacked then s.put t (.popAgain call verifyPacked (s.pops call.cls))
    else s.put t (.popNext call oldPacked since)
  | .popNext call oldPacked since => s.put t (.popExchange call oldPacked (s.next (ptr oldPacked)) since)
  | .popExchange call oldPacked nextPtr _ =>
    if s.headPacked call.cls = oldPacked ∧ spurious = false then
      {(s.setHead call.cls (popped oldPacked nextPtr)).put t (.popWon call (ptr oldPacked)) with
        pops := Function.update s.pops call.cls (s.pops call.cls + 1)}
    else s.put t (.popAgain call (s.headPacked call.cls) (s.pops call.cls))
  | .popAgain call oldPacked since => (s.setHazard t 0).put t (loaded call oldPacked since)
  | .popWon call head =>
    ((s.setHazard t 0).setCache t call.cls (head :: s.caches t call.cls)).put t
      (if call.i + 1 < kCacheCapacity then .popLoad {call with i := call.i + 1} else .take call.cls call.size)
  | .take cls size => s.takeBack t cls size (.malloc cls size)
  | .drain _ 0 => s.put t .idle
  | .drain cls (left + 1) =>
    match s.caches t cls with
    -- back() of an empty vector; drain is half the size the vector had
    | [] => s.put t .idle
    | node :: rest => (s.setCache t cls rest).put t (.pushLoad cls left node)
  | .pushLoad cls left node => s.put t (.pushLink cls left node (s.headPacked cls))
  | .pushLink cls left node oldPacked =>
    {s.put t (.pushExchange cls left node oldPacked) with next := Function.update s.next node (ptr oldPacked)}
  | .pushExchange cls left node oldPacked =>
    if s.headPacked cls = oldPacked ∧ spurious = false then
      (s.setHead cls (pack node (tag oldPacked))).put t (.drain cls left)
    else s.put t (.pushLink cls left node (s.headPacked cls))

-- What a thread asks for, what malloc answers, and a user writing to the first
-- bytes of a block it has.
inductive Label (Tid : Type) where
  | allocate (t : Tid) (size : Nat)
  | deallocate (t : Tid) (p : BitVec 64) (size : Nat)
  | malloc (t : Tid) (p : BitVec 64)
  | overwrite (p value : BitVec 64) (size : Nat)
  | step (t : Tid) (spurious : Bool)

def PoolCall.isIdle : PoolCall → Bool
  | .idle => true
  | _ => false

def PoolCall.isMalloc : PoolCall → Bool
  | .malloc _ _ => true
  | _ => false

def allowed (s : LFMemoryPool Tid) : Label Tid → Bool
  | .allocate t size => PoolCall.isIdle (s.calls t) && decide (1 ≤ size) && decide (size ≤ 4096)
  | .deallocate t p size => PoolCall.isIdle (s.calls t) && decide (p ∈ s.users size)
  | .malloc t p => PoolCall.isMalloc (s.calls t) && (s.blocks p).isNone && decide (p ≠ 0) && decide (p.toNat < 2 ^ 48)
  | .overwrite p _ size => decide (p ∈ s.users size)
  | .step _ _ => true

def allocate (s : LFMemoryPool Tid) (t : Tid) (size : Nat) : LFMemoryPool Tid :=
  s.takeBack t (sizeClass size) size (.popLoad ⟨sizeClass size,size,0⟩)

def deallocate (s : LFMemoryPool Tid) (t : Tid) (p : BitVec 64) (size : Nat) : LFMemoryPool Tid :=
  let cls := sizeClass size
  let localVec := p :: s.caches t cls
  ((s.setUsers size ((s.users size).erase p)).setCache t cls localVec).put t
    (if kCacheCapacity * 2 ≤ localVec.length then .drain cls (localVec.length / 2) else .idle)

def mallocReturns (s : LFMemoryPool Tid) (t : Tid) (p : BitVec 64) : LFMemoryPool Tid :=
  match s.calls t with
  | .malloc cls size =>
    {(s.setUsers size (p :: s.users size)).put t .idle with
      blocks := Function.update s.blocks p (some (blockSize cls))}
  | _ => s

def apply (s : LFMemoryPool Tid) : Label Tid → LFMemoryPool Tid
  | .allocate t size => s.allocate t size
  | .deallocate t p size => s.deallocate t p size
  | .malloc t p => s.mallocReturns t p
  | .overwrite p value _ => {s with next := Function.update s.next p value}
  | .step t spurious => s.step t spurious

-- An empty pool, over whatever the memory holds.
def new (memory : BitVec 64 → BitVec 64) : LFMemoryPool Tid :=
  ⟨fun _ => 0,memory,fun _ _ => [],fun _ => 0,fun _ => .idle,fun _ => none,fun _ => [],fun _ => 0⟩

def machine (Tid : Type) [DecidableEq Tid] : Machine (LFMemoryPool Tid) (Label Tid) :=
  .guarded (fun s => ∃ memory, s = new memory) (fun s label => s.allowed label = true) apply

-- Fewer than 2^16 pops of a list between a load of its head word and the
-- exchange that expects it.
def FewPops (s : LFMemoryPool Tid) : Label Tid → Prop
  | .step t _ =>
    match s.calls t with
    | .popExchange call _ _ since => s.pops call.cls < since + 2 ^ 16
    | _ => True
  | _ => True

end LFMemoryPool
end NewMuduo
