import NewMuduo.MPMCQueueV2
import NewMuduo.Simulation
import Mathlib.Data.Finset.Card

namespace NewMuduo
variable {T Tid : Type}

-- What a caller sees of either queue.
inductive QueueEvent (T Tid : Type) where
  | enqueue (t : Tid) (item : T)
  | dequeue (t : Tid)
  | returned (t : Tid) (result : QueueResult T)

def MPMCQueue.result : Outcome T → QueueResult T
  | .enqueued _ => .enqueue true
  | .full _ _ => .enqueue false
  | .dequeued _ out => .dequeue (some out)
  | .empty _ _ => .dequeue none

def MPMCQueue.sees (s : MPMCQueue T Tid) : MPMCQueue.Label T Tid → MPMCQueue T Tid → List (QueueEvent T Tid)
  | .enqueue t item,_ => [.enqueue t item]
  | .dequeue t,_ => [.dequeue t]
  | .step t _,after => (after.outcomes.drop s.outcomes.length).map fun outcome => .returned t (result outcome)

namespace MPMCQueueV2
variable {s : MPMCQueueV2 T Tid} {a : MPMCQueue T Tid} {k : Nat} {t : Tid} {movedFrom : T → T}

def sees (s : MPMCQueueV2 T Tid) : Label T Tid → MPMCQueueV2 T Tid → List (QueueEvent T Tid)
  | .enqueue t item,_ => [.enqueue t item]
  | .dequeue t,_ => [.dequeue t]
  | .step t,after => (after.results.drop s.results.length).map fun result => .returned t result

-- The same place of the other queue.
def counterpart : ThreadV2 T → Thread T
  | .idle => .idle
  | .enqLoad item => .enqLoad item
  | .enqSequence item pos => .enqSequence item pos.value.toNat
  | .enqClaim item pos => .enqClaim item pos.value.toNat
  | .enqWrite item pos => .enqWrite item pos.value.toNat
  | .enqPublish pos => .enqPublish pos.value.toNat
  | .deqLoad => .deqLoad
  | .deqSequence pos => .deqSequence pos.value.toNat
  | .deqClaim pos => .deqClaim pos.value.toNat
  | .deqRead pos => .deqRead pos.value.toNat
  | .deqRelease pos out => .deqRelease pos.value.toNat out

-- A thread on its way to reload the cursor may not have failed its exchange
-- there yet.
inductive Matches : ThreadV2 T → Thread T → Prop where
  | same : Matches thread (counterpart thread)
  | enqReload : Matches (.enqLoad item) (.enqClaim item pos)
  | deqReload : Matches .deqLoad (.deqClaim pos)

def ThreadV2.loads : ThreadV2 T → Bool
  | .enqLoad _ | .deqLoad => true
  | _ => false

theorem Matches.there {thread : ThreadV2 T} {other : Thread T} (place : Matches thread other)
    (settled : ThreadV2.loads thread = false) : other = counterpart thread := by
  cases place with
  | same => rfl
  | enqReload | deqReload => cases settled

structure Refines (k : Nat) (s : MPMCQueueV2 T Tid) (a : MPMCQueue T Tid) : Prop where
  cells : ∀ i, i < 2 ^ k → (s.sequence i).value.toNat = a.sequence i
  data : s.data = a.data
  enqueuePos : s.enqueuePos.value.toNat = a.enqueuePos
  dequeuePos : s.dequeuePos.value.toNat = a.dequeuePos
  threads : ∀ t, Matches (s.threads t) (a.threads t)

-- A position read from a cursor: its tag is the cursor's first.
def Behind (pos cursor : DoubleWord) : Prop := pos.tag = 0 ∧ pos.value.toNat ≤ cursor.value.toNat

def Taken (pos cursor : DoubleWord) : Prop := pos.tag = 0 ∧ pos.value.toNat < cursor.value.toNat

def Below (enqueuePos dequeuePos : DoubleWord) : ThreadV2 T → Prop
  | .enqSequence _ pos | .enqClaim _ pos => Behind pos enqueuePos
  | .enqWrite _ pos | .enqPublish pos => Taken pos enqueuePos
  | .deqSequence pos | .deqClaim pos => Behind pos dequeuePos
  | .deqRead pos | .deqRelease pos _ => Taken pos dequeuePos
  | _ => True

-- A call that has not claimed a position yet.
def Open : ThreadV2 T → Prop
  | .enqLoad _ | .enqSequence _ _ | .enqClaim _ _ | .deqLoad | .deqSequence _ | .deqClaim _ => True
  | _ => False

-- Each position was claimed by a call of its own, so the cursors stay below the
-- number of calls.
structure Bounded (s : MPMCQueueV2 T Tid) : Prop where
  enqueueTag : s.enqueuePos.tag = 0
  dequeueTag : s.dequeuePos.tag = 0
  below : ∀ t, Below s.enqueuePos s.dequeuePos (s.threads t)
  claims : ∃ callers : Finset Tid, (∀ t, Open (s.threads t) → t ∈ callers) ∧
    s.enqueuePos.value.toNat + s.dequeuePos.value.toNat + callers.card ≤ s.calls
  few : s.calls < 2 ^ 63

theorem mask_lt (size : k < 64) : 2 ^ k - 1 < 2 ^ 64 :=
  Nat.lt_of_le_of_lt (Nat.sub_le _ _) (Nat.pow_lt_pow_right (by decide) size)

theorem cell_eq (size : k < 64) (pos : DoubleWord) : cell k pos = MPMCQueue.cell k pos.value.toNat := by
  rw [cell,MPMCQueue.cell,BitVec.toNat_and,BitVec.toNat_ofNat,Nat.mod_eq_of_lt (mask_lt size)]

theorem cell_lt (k pos : Nat) : MPMCQueue.cell k pos < 2 ^ k := by
  have bound : MPMCQueue.cell k pos ≤ 2 ^ k - 1 := Nat.and_le_right
  have positive : 0 < 2 ^ k := Nat.two_pow_pos k
  omega

theorem next_toNat {value : BitVec 64} (small : value.toNat < 2 ^ 63) : (value + 1).toNat = value.toNat + 1 := by
  rw [BitVec.toNat_add]
  exact Nat.mod_eq_of_lt (by simp; omega)

theorem lap_toNat {value : BitVec 64} (size : k < 64) (small : value.toNat < 2 ^ 63) :
    (value + BitVec.ofNat 64 (2 ^ k)).toNat = value.toNat + 2 ^ k := by
  have most : 2 ^ k ≤ 2 ^ 63 := Nat.pow_le_pow_right (by decide) (by omega)
  rw [BitVec.toNat_add,BitVec.toNat_ofNat,Nat.mod_eq_of_lt (by omega : 2 ^ k < 2 ^ 64)]
  exact Nat.mod_eq_of_lt (by omega)

theorem Bounded.enqueue_small (old : Bounded s) : s.enqueuePos.value.toNat < 2 ^ 63 := by
  obtain ⟨callers,_,count⟩ := old.claims
  have few := old.few
  omega

theorem Bounded.dequeue_small (old : Bounded s) : s.dequeuePos.value.toNat < 2 ^ 63 := by
  obtain ⟨callers,_,count⟩ := old.claims
  have few := old.few
  omega

theorem Below.grows {enqueuePos dequeuePos front back : DoubleWord} {thread : ThreadV2 T} (old : Below enqueuePos dequeuePos thread)
    (first : enqueuePos.value.toNat ≤ front.value.toNat) (second : dequeuePos.value.toNat ≤ back.value.toNat) :
    Below front back thread := by
  cases thread with
  | enqSequence | enqClaim => exact ⟨old.1,Nat.le_trans old.2 first⟩
  | enqWrite | enqPublish => exact ⟨old.1,Nat.lt_of_lt_of_le old.2 first⟩
  | deqSequence | deqClaim => exact ⟨old.1,Nat.le_trans old.2 second⟩
  | deqRead | deqRelease => exact ⟨old.1,Nat.lt_of_lt_of_le old.2 second⟩
  | _ => trivial

variable [DecidableEq Tid]

theorem below_put {enqueuePos dequeuePos : DoubleWord} {threads : Tid → ThreadV2 T} {next : ThreadV2 T}
    (others : ∀ u, Below enqueuePos dequeuePos (threads u)) (here : Below enqueuePos dequeuePos next) :
    ∀ u, Below enqueuePos dequeuePos (Function.update threads t next u) :=
  (Function.forall_update_iff threads fun _ thread => Below enqueuePos dequeuePos thread).mpr ⟨here,fun u _ => others u⟩

-- A thread goes on and claims nothing.
theorem Bounded.goes {next : ThreadV2 T} (old : Bounded s) (here : Below s.enqueuePos s.dequeuePos next)
    (opened : Open next → Open (s.threads t)) : Bounded (s.put t next) := by
  refine ⟨old.enqueueTag,old.dequeueTag,below_put old.below here,?_,old.few⟩
  obtain ⟨callers,known,count⟩ := old.claims
  refine ⟨callers,?_,count⟩
  exact (Function.forall_update_iff s.threads fun u thread => Open thread → u ∈ callers).mpr
    ⟨fun given => known t (opened given),fun u _ => known u⟩

-- The caller that claims a position is no longer open.
theorem claims_put {threads : Tid → ThreadV2 T} {next : ThreadV2 T} {callers : Finset Tid} (known : ∀ u, Open (threads u) → u ∈ callers)
    (closed : ¬Open next) : ∀ u, Open (Function.update threads t next u) → u ∈ callers.erase t :=
  (Function.forall_update_iff threads fun u thread => Open thread → u ∈ callers.erase t).mpr
    ⟨fun given => absurd given closed,fun u apart given => Finset.mem_erase.mpr ⟨apart,known u given⟩⟩

theorem Bounded.claimEnqueue (old : Bounded s) (here : s.threads t = .enqClaim item s.enqueuePos) :
    Bounded {s.put t (.enqWrite item s.enqueuePos) with enqueuePos := ⟨s.enqueuePos.value + 1,s.enqueuePos.tag⟩} := by
  have grown := next_toNat old.enqueue_small
  refine ⟨old.enqueueTag,old.dequeueTag,below_put (fun u => (old.below u).grows ?_ (Nat.le_refl _)) ⟨old.enqueueTag,?_⟩,?_,old.few⟩
  · rw [grown]
    exact Nat.le_succ _
  · rw [grown]
    exact Nat.lt_succ_self _
  · obtain ⟨callers,known,count⟩ := old.claims
    have opened : t ∈ callers := known t (by rw [here]; trivial)
    have less := Finset.card_erase_of_mem opened
    have positive := Finset.card_pos.mpr ⟨t,opened⟩
    refine ⟨callers.erase t,claims_put known id,?_⟩
    dsimp only [put]
    omega

theorem Bounded.claimDequeue (old : Bounded s) (here : s.threads t = .deqClaim s.dequeuePos) :
    Bounded {s.put t (.deqRead s.dequeuePos) with dequeuePos := ⟨s.dequeuePos.value + 1,s.dequeuePos.tag⟩} := by
  have grown := next_toNat old.dequeue_small
  refine ⟨old.enqueueTag,old.dequeueTag,below_put (fun u => (old.below u).grows (Nat.le_refl _) ?_) ⟨old.dequeueTag,?_⟩,?_,old.few⟩
  · rw [grown]
    exact Nat.le_succ _
  · rw [grown]
    exact Nat.lt_succ_self _
  · obtain ⟨callers,known,count⟩ := old.claims
    have opened : t ∈ callers := known t (by rw [here]; trivial)
    have less := Finset.card_erase_of_mem opened
    have positive := Finset.card_pos.mpr ⟨t,opened⟩
    refine ⟨callers.erase t,claims_put known id,?_⟩
    dsimp only [put]
    omega

theorem Bounded.step (old : Bounded s) (k : Nat) (movedFrom : T → T) (t : Tid) : Bounded (s.step k movedFrom t) := by
  have known := old.below t
  cases here : s.threads t with
  | idle =>
    simp only [MPMCQueueV2.step,here]
    exact old
  | enqLoad item =>
    simp only [MPMCQueueV2.step,here]
    exact old.goes ⟨old.enqueueTag,Nat.le_refl _⟩ fun _ => by rw [here]; trivial
  | deqLoad =>
    simp only [MPMCQueueV2.step,here]
    exact old.goes ⟨old.dequeueTag,Nat.le_refl _⟩ fun _ => by rw [here]; trivial
  | enqSequence item pos | deqSequence pos =>
    simp only [MPMCQueueV2.step,here]
    rw [here] at known
    split
    · exact old.goes known fun _ => by rw [here]; trivial
    · split
      · have later : Bounded (s.put t .idle) := old.goes trivial False.elim
        exact ⟨later.enqueueTag,later.dequeueTag,later.below,later.claims,later.few⟩
      · exact old.goes trivial fun _ => by rw [here]; trivial
  | enqClaim item pos =>
    simp only [MPMCQueueV2.step,here]
    split
    · rename_i won
      subst won
      exact old.claimEnqueue here
    · exact old.goes trivial fun _ => by rw [here]; trivial
  | deqClaim pos =>
    simp only [MPMCQueueV2.step,here]
    split
    · rename_i won
      subst won
      exact old.claimDequeue here
    · exact old.goes trivial fun _ => by rw [here]; trivial
  | enqWrite item pos =>
    simp only [MPMCQueueV2.step,here]
    rw [here] at known
    have later : Bounded (s.put t (.enqPublish pos)) := old.goes known False.elim
    exact ⟨later.enqueueTag,later.dequeueTag,later.below,later.claims,later.few⟩
  | deqRead pos =>
    simp only [MPMCQueueV2.step,here]
    rw [here] at known
    have later : Bounded (s.put t (.deqRelease pos (s.data (cell k pos)))) := old.goes known False.elim
    exact ⟨later.enqueueTag,later.dequeueTag,later.below,later.claims,later.few⟩
  | enqPublish pos | deqRelease pos out =>
    simp only [MPMCQueueV2.step,here]
    have later : Bounded (s.put t .idle) := old.goes trivial False.elim
    exact ⟨later.enqueueTag,later.dequeueTag,later.below,later.claims,later.few⟩

theorem Bounded.call {next : ThreadV2 T} (old : Bounded s) (few : s.calls + 1 < 2 ^ 63) (here : Below s.enqueuePos s.dequeuePos next) :
    Bounded {s.put t next with calls := s.calls + 1} := by
  refine ⟨old.enqueueTag,old.dequeueTag,below_put old.below here,?_,few⟩
  obtain ⟨callers,known,count⟩ := old.claims
  refine ⟨insert t callers,?_,?_⟩
  · exact (Function.forall_update_iff s.threads fun u thread => Open thread → u ∈ insert t callers).mpr
      ⟨fun _ => Finset.mem_insert_self _ _,fun u _ given => Finset.mem_insert_of_mem (known u given)⟩
  · have more := Finset.card_insert_le t callers
    dsimp only [put]
    omega

-- Both threads go on, and nothing else changes.
theorem Refines.goes {next : ThreadV2 T} {other : Thread T} (old : Refines k s a) (same : Matches next other) :
    Refines k (s.put t next) (a.put t other) := by
  refine ⟨old.cells,old.data,old.enqueuePos,old.dequeuePos,fun u => ?_⟩
  change Matches (Function.update s.threads t next u) (Function.update a.threads t other u)
  by_cases here : u = t
  · rw [here,Function.update_self,Function.update_self]
    exact same
  · rw [Function.update_of_ne here,Function.update_of_ne here]
    exact old.threads u

-- The other queue takes some steps that look the same.
def Matched (k : Nat) (movedFrom : T → T) (initial : T) (s : MPMCQueueV2 T Tid) (a : MPMCQueue T Tid) (t : Tid) : Prop :=
  ∃ others last, (MPMCQueue.machine k movedFrom initial).run a others = some last ∧
    (MPMCQueue.machine k movedFrom initial).trace MPMCQueue.sees a others = sees s (.step t) (s.step k movedFrom t) ∧
    Refines k (s.step k movedFrom t) last

section matched
variable {initial : T} {after : MPMCQueueV2 T Tid} {other : MPMCQueue T Tid}

theorem Matched.rests (same : Refines k after a) (one : s.step k movedFrom t = after) (results : after.results = s.results) :
    Matched k movedFrom initial s a t := by
  subst one
  refine ⟨[],a,rfl,?_,same⟩
  rw [sees,results,List.drop_length]
  rfl

theorem Matched.quietly (spurious : Bool) (same : Refines k after other) (one : s.step k movedFrom t = after)
    (two : a.step k movedFrom t spurious = other) (results : after.results = s.results) (outcomes : other.outcomes = a.outcomes) :
    Matched k movedFrom initial s a t := by
  subst one two
  have taken : (MPMCQueue.machine k movedFrom initial).next a (.step t spurious) = some (a.step k movedFrom t spurious) := rfl
  refine ⟨[.step t spurious],_,Machine.run_one taken,?_,same⟩
  rw [Machine.trace_one taken,MPMCQueue.sees,sees,results,outcomes,List.drop_length,List.drop_length]
  rfl

theorem Matched.returning {outcome : Outcome T} (same : Refines k after other) (one : s.step k movedFrom t = after)
    (two : a.step k movedFrom t false = other) (results : after.results = s.results ++ [MPMCQueue.result outcome])
    (outcomes : other.outcomes = a.outcomes ++ [outcome]) : Matched k movedFrom initial s a t := by
  subst one two
  have taken : (MPMCQueue.machine k movedFrom initial).next a (.step t false) = some (a.step k movedFrom t false) := rfl
  refine ⟨[.step t false],_,Machine.run_one taken,?_,same⟩
  rw [Machine.trace_one taken,MPMCQueue.sees,sees,results,outcomes,List.drop_left,List.drop_left]
  rfl

-- The load of a cursor, at the start or after a failed exchange, which the
-- other queue makes when its exchange fails.
theorem Refines.enqLoad (old : Refines k s a) (here : s.threads t = .enqLoad item) : Matched k movedFrom initial s a t := by
  have place := old.threads t
  rw [here] at place
  have one : s.step k movedFrom t = s.put t (.enqSequence item s.enqueuePos) := by simp only [MPMCQueueV2.step,here]
  have goes : Refines k (s.put t (.enqSequence item s.enqueuePos)) (a.put t (.enqSequence item a.enqueuePos)) := by
    rw [← old.enqueuePos]
    exact old.goes .same
  cases there : a.threads t with
  | enqLoad _ =>
    rw [there] at place
    cases place
    have two : a.step k movedFrom t false = a.put t (.enqSequence item a.enqueuePos) := by simp only [MPMCQueue.step,there]
    exact .quietly false goes one two rfl rfl
  | enqClaim _ pos =>
    rw [there] at place
    cases place
    have two : a.step k movedFrom t true = a.put t (.enqSequence item a.enqueuePos) := by
      simp only [MPMCQueue.step,there]
      exact if_neg fun both => Bool.noConfusion both.2
    exact .quietly true goes one two rfl rfl
  | _ =>
    rw [there] at place
    cases place

theorem Refines.deqLoad (old : Refines k s a) (here : s.threads t = .deqLoad) : Matched k movedFrom initial s a t := by
  have place := old.threads t
  rw [here] at place
  have one : s.step k movedFrom t = s.put t (.deqSequence s.dequeuePos) := by simp only [MPMCQueueV2.step,here]
  have goes : Refines k (s.put t (.deqSequence s.dequeuePos)) (a.put t (.deqSequence a.dequeuePos)) := by
    rw [← old.dequeuePos]
    exact old.goes .same
  cases there : a.threads t with
  | deqLoad =>
    have two : a.step k movedFrom t false = a.put t (.deqSequence a.dequeuePos) := by simp only [MPMCQueue.step,there]
    exact .quietly false goes one two rfl rfl
  | deqClaim pos =>
    have two : a.step k movedFrom t true = a.put t (.deqSequence a.dequeuePos) := by
      simp only [MPMCQueue.step,there]
      exact if_neg fun both => Bool.noConfusion both.2
    exact .quietly true goes one two rfl rfl
  | _ =>
    rw [there] at place
    cases place

-- The unsigned comparison decides as the sign of the difference does.
omit [DecidableEq Tid] in
theorem diff_zero (seq pos : BitVec 64) : (seq.toNat : Int) - (pos.toNat : Int) = 0 ↔ seq = pos := by
  constructor
  · intro same
    exact BitVec.eq_of_toNat_eq (by omega)
  · intro same
    rw [same]
    exact Int.sub_self _

omit [DecidableEq Tid] in
theorem diff_negative (seq pos : BitVec 64) : (seq.toNat : Int) - (pos.toNat : Int) < 0 ↔ seq < pos := by
  rw [BitVec.lt_def]
  omega

omit [DecidableEq Tid] in
theorem Refines.sequence (old : Refines k s a) (size : k < 64) (pos : DoubleWord) :
    a.sequence (MPMCQueue.cell k pos.value.toNat) = (s.sequence (cell k pos)).value.toNat := by
  rw [cell_eq size]
  exact (old.cells _ (cell_lt k _)).symm

theorem Refines.returns (old : Refines k s a) (result : QueueResult T) (outcome : Outcome T) :
    Refines k (s.returns t result) (a.returns t outcome) := by
  have later : Refines k (s.put t .idle) (a.put t .idle) := old.goes .same
  exact ⟨later.cells,later.data,later.enqueuePos,later.dequeuePos,later.threads⟩

theorem Refines.enqSequence (old : Refines k s a) (size : k < 64) (here : s.threads t = .enqSequence item pos)
    (there : a.threads t = .enqSequence item pos.value.toNat) : Matched k movedFrom initial s a t := by
  have zero := diff_zero (s.sequence (cell k pos)).value pos.value
  have negative := diff_negative (s.sequence (cell k pos)).value pos.value
  rw [← old.sequence size] at zero negative
  by_cases equal : (s.sequence (cell k pos)).value = pos.value
  · have one : s.step k movedFrom t = s.put t (.enqClaim item pos) := by
      simp only [MPMCQueueV2.step,here]
      exact if_pos equal
    have two : a.step k movedFrom t false = a.put t (.enqClaim item pos.value.toNat) := by
      simp only [MPMCQueue.step,there]
      exact if_pos (zero.mpr equal)
    exact .quietly false (old.goes .same) one two rfl rfl
  · by_cases less : (s.sequence (cell k pos)).value < pos.value
    · have one : s.step k movedFrom t = s.returns t (.enqueue false) := by
        simp only [MPMCQueueV2.step,here]
        rw [if_neg equal,if_pos less]
      have two : a.step k movedFrom t false = a.returns t (.full pos.value.toNat
          (pos.value.toNat < 2 ^ k || a.freed (pos.value.toNat - 2 ^ k))) := by
        simp only [MPMCQueue.step,there]
        rw [if_neg (mt zero.mp equal),if_pos (negative.mpr less)]
      exact .returning (old.returns _ _) one two rfl rfl
    · have one : s.step k movedFrom t = s.put t (.enqLoad item) := by
        simp only [MPMCQueueV2.step,here]
        rw [if_neg equal,if_neg less]
      have two : a.step k movedFrom t false = a.put t (.enqLoad item) := by
        simp only [MPMCQueue.step,there]
        rw [if_neg (mt zero.mp equal),if_neg (mt negative.mp less)]
      exact .quietly false (old.goes .same) one two rfl rfl

theorem Refines.deqSequence (old : Refines k s a) (size : k < 64) (small : pos.value.toNat < 2 ^ 63)
    (here : s.threads t = .deqSequence pos) (there : a.threads t = .deqSequence pos.value.toNat) :
    Matched k movedFrom initial s a t := by
  have zero := diff_zero (s.sequence (cell k pos)).value (pos.value + 1)
  have negative := diff_negative (s.sequence (cell k pos)).value (pos.value + 1)
  rw [← old.sequence size,next_toNat small] at zero negative
  by_cases equal : (s.sequence (cell k pos)).value = pos.value + 1
  · have one : s.step k movedFrom t = s.put t (.deqClaim pos) := by
      simp only [MPMCQueueV2.step,here]
      exact if_pos equal
    have two : a.step k movedFrom t false = a.put t (.deqClaim pos.value.toNat) := by
      simp only [MPMCQueue.step,there]
      exact if_pos (zero.mpr equal)
    exact .quietly false (old.goes .same) one two rfl rfl
  · by_cases less : (s.sequence (cell k pos)).value < pos.value + 1
    · have one : s.step k movedFrom t = s.returns t (.dequeue none) := by
        simp only [MPMCQueueV2.step,here]
        rw [if_neg equal,if_pos less]
      have two : a.step k movedFrom t false = a.returns t (.empty pos.value.toNat (a.filled pos.value.toNat)) := by
        simp only [MPMCQueue.step,there]
        rw [if_neg (mt zero.mp equal),if_pos (negative.mpr less)]
      exact .returning (old.returns _ _) one two rfl rfl
    · have one : s.step k movedFrom t = s.put t .deqLoad := by
        simp only [MPMCQueueV2.step,here]
        rw [if_neg equal,if_neg less]
      have two : a.step k movedFrom t false = a.put t .deqLoad := by
        simp only [MPMCQueue.step,there]
        rw [if_neg (mt zero.mp equal),if_neg (mt negative.mp less)]
      exact .quietly false (old.goes .same) one two rfl rfl

-- Both words of the cursor are compared, and the tags agree anyway.
omit [DecidableEq Tid] in
theorem cursor_iff {cursor pos : DoubleWord} (first : cursor.tag = 0) (second : pos.tag = 0) :
    cursor = pos ↔ cursor.value = pos.value := by
  constructor
  · exact congrArg DoubleWord.value
  · intro same
    cases cursor
    cases pos
    rw [DoubleWord.mk.injEq]
    exact ⟨same,first.trans second.symm⟩

theorem Refines.enqClaim (old : Refines k s a) (bounded : Bounded s) (here : s.threads t = .enqClaim item pos)
    (there : a.threads t = .enqClaim item pos.value.toNat) : Matched k movedFrom initial s a t := by
  by_cases won : s.enqueuePos = pos
  · subst won
    have one : s.step k movedFrom t = {s.put t (.enqWrite item s.enqueuePos) with
        enqueuePos := ⟨s.enqueuePos.value + 1,s.enqueuePos.tag⟩} := by
      simp only [MPMCQueueV2.step,here]
      exact if_pos trivial
    have two : a.step k movedFrom t false = {a.put t (.enqWrite item s.enqueuePos.value.toNat) with
        enqueuePos := s.enqueuePos.value.toNat + 1,won := a.won ++ [item]} := by
      simp only [MPMCQueue.step,there]
      exact if_pos ⟨old.enqueuePos.symm,trivial⟩
    have later : Refines k (s.put t (.enqWrite item s.enqueuePos)) (a.put t (.enqWrite item s.enqueuePos.value.toNat)) :=
      old.goes .same
    have claimed : Refines k {s.put t (.enqWrite item s.enqueuePos) with
        enqueuePos := ⟨s.enqueuePos.value + 1,s.enqueuePos.tag⟩} {a.put t (.enqWrite item s.enqueuePos.value.toNat) with
        enqueuePos := s.enqueuePos.value.toNat + 1,won := a.won ++ [item]} :=
      ⟨later.cells,later.data,next_toNat bounded.enqueue_small,later.dequeuePos,later.threads⟩
    exact .quietly false claimed one two rfl rfl
  · have one : s.step k movedFrom t = s.put t (.enqLoad item) := by
      simp only [MPMCQueueV2.step,here]
      exact if_neg won
    have later : Refines k (s.put t (.enqLoad item)) (a.put t (.enqClaim item pos.value.toNat)) := old.goes .enqReload
    have same : a.put t (.enqClaim item pos.value.toNat) = a := by
      rw [← there,MPMCQueue.put,Function.update_eq_self]
    rw [same] at later
    exact .rests later one rfl

theorem Refines.deqClaim (old : Refines k s a) (bounded : Bounded s) (here : s.threads t = .deqClaim pos)
    (there : a.threads t = .deqClaim pos.value.toNat) : Matched k movedFrom initial s a t := by
  by_cases won : s.dequeuePos = pos
  · subst won
    have one : s.step k movedFrom t = {s.put t (.deqRead s.dequeuePos) with
        dequeuePos := ⟨s.dequeuePos.value + 1,s.dequeuePos.tag⟩} := by
      simp only [MPMCQueueV2.step,here]
      exact if_pos trivial
    have two : a.step k movedFrom t false = {a.put t (.deqRead s.dequeuePos.value.toNat) with
        dequeuePos := s.dequeuePos.value.toNat + 1,left := a.left ++ [s.dequeuePos.value.toNat]} := by
      simp only [MPMCQueue.step,there]
      exact if_pos ⟨old.dequeuePos.symm,trivial⟩
    have later : Refines k (s.put t (.deqRead s.dequeuePos)) (a.put t (.deqRead s.dequeuePos.value.toNat)) := old.goes .same
    have claimed : Refines k {s.put t (.deqRead s.dequeuePos) with
        dequeuePos := ⟨s.dequeuePos.value + 1,s.dequeuePos.tag⟩} {a.put t (.deqRead s.dequeuePos.value.toNat) with
        dequeuePos := s.dequeuePos.value.toNat + 1,left := a.left ++ [s.dequeuePos.value.toNat]} :=
      ⟨later.cells,later.data,later.enqueuePos,next_toNat bounded.dequeue_small,later.threads⟩
    exact .quietly false claimed one two rfl rfl
  · have one : s.step k movedFrom t = s.put t .deqLoad := by
      simp only [MPMCQueueV2.step,here]
      exact if_neg won
    have later : Refines k (s.put t .deqLoad) (a.put t (.deqClaim pos.value.toNat)) := old.goes .deqReload
    have same : a.put t (.deqClaim pos.value.toNat) = a := by
      rw [← there,MPMCQueue.put,Function.update_eq_self]
    rw [same] at later
    exact .rests later one rfl

theorem Refines.enqWrite (old : Refines k s a) (size : k < 64) (here : s.threads t = .enqWrite item pos)
    (there : a.threads t = .enqWrite item pos.value.toNat) : Matched k movedFrom initial s a t := by
  have one : s.step k movedFrom t = {s.put t (.enqPublish pos) with data := Function.update s.data (cell k pos) item} := by
    simp only [MPMCQueueV2.step,here]
  have two : a.step k movedFrom t false = {a.put t (.enqPublish pos.value.toNat) with
      data := Function.update a.data (MPMCQueue.cell k pos.value.toNat) item} := by
    simp only [MPMCQueue.step,there]
  have later : Refines k (s.put t (.enqPublish pos)) (a.put t (.enqPublish pos.value.toNat)) := old.goes .same
  have written : Refines k {s.put t (.enqPublish pos) with data := Function.update s.data (cell k pos) item}
      {a.put t (.enqPublish pos.value.toNat) with data := Function.update a.data (MPMCQueue.cell k pos.value.toNat) item} := by
    refine ⟨later.cells,?_,later.enqueuePos,later.dequeuePos,later.threads⟩
    rw [cell_eq size,old.data]
  exact .quietly false written one two rfl rfl

theorem Refines.deqRead (old : Refines k s a) (size : k < 64) (here : s.threads t = .deqRead pos)
    (there : a.threads t = .deqRead pos.value.toNat) : Matched k movedFrom initial s a t := by
  have one : s.step k movedFrom t = {s.put t (.deqRelease pos (s.data (cell k pos))) with
      data := Function.update s.data (cell k pos) (movedFrom (s.data (cell k pos)))} := by
    simp only [MPMCQueueV2.step,here]
  have two : a.step k movedFrom t false = {a.put t (.deqRelease pos.value.toNat (s.data (cell k pos))) with
      data := Function.update s.data (cell k pos) (movedFrom (s.data (cell k pos)))} := by
    simp only [MPMCQueue.step,there]
    rw [cell_eq size,old.data]
  have later : Refines k (s.put t (.deqRelease pos (s.data (cell k pos))))
      (a.put t (.deqRelease pos.value.toNat (s.data (cell k pos)))) := old.goes .same
  have read : Refines k {s.put t (.deqRelease pos (s.data (cell k pos))) with
      data := Function.update s.data (cell k pos) (movedFrom (s.data (cell k pos)))}
      {a.put t (.deqRelease pos.value.toNat (s.data (cell k pos))) with
        data := Function.update s.data (cell k pos) (movedFrom (s.data (cell k pos)))} :=
    ⟨later.cells,rfl,later.enqueuePos,later.dequeuePos,later.threads⟩
  exact .quietly false read one two rfl rfl

omit [DecidableEq Tid] in
-- A store to the cell of a position in both queues.
theorem Refines.store (old : Refines k s a) (size : k < 64) (pos word : DoubleWord) (same : word.value.toNat = value) :
    ∀ i, i < 2 ^ k → (Function.update s.sequence (cell k pos) word i).value.toNat =
      Function.update a.sequence (MPMCQueue.cell k pos.value.toNat) value i := by
  intro i inside
  rw [cell_eq size]
  by_cases here : i = MPMCQueue.cell k pos.value.toNat
  · rw [here,Function.update_self,Function.update_self,same]
  · rw [Function.update_of_ne here,Function.update_of_ne here]
    exact old.cells i inside

theorem Refines.enqPublish (old : Refines k s a) (size : k < 64) (small : pos.value.toNat < 2 ^ 63)
    (here : s.threads t = .enqPublish pos) (there : a.threads t = .enqPublish pos.value.toNat) :
    Matched k movedFrom initial s a t := by
  have one : s.step k movedFrom t = {s.returns t (.enqueue true) with
      sequence := Function.update s.sequence (cell k pos) ⟨pos.value + 1,pos.tag⟩} := by
    simp only [MPMCQueueV2.step,here]
  have two : a.step k movedFrom t false = {a.returns t (.enqueued pos.value.toNat) with
      sequence := Function.update a.sequence (MPMCQueue.cell k pos.value.toNat) (pos.value.toNat + 1)
      filled := Function.update a.filled pos.value.toNat true} := by
    simp only [MPMCQueue.step,there]
  have later := old.returns (t := t) (.enqueue true) (.enqueued pos.value.toNat)
  have stored : Refines k {s.returns t (.enqueue true) with
      sequence := Function.update s.sequence (cell k pos) ⟨pos.value + 1,pos.tag⟩} {a.returns t (.enqueued pos.value.toNat) with
      sequence := Function.update a.sequence (MPMCQueue.cell k pos.value.toNat) (pos.value.toNat + 1)
      filled := Function.update a.filled pos.value.toNat true} :=
    ⟨old.store size pos ⟨pos.value + 1,pos.tag⟩ (next_toNat small),later.data,later.enqueuePos,later.dequeuePos,later.threads⟩
  exact .returning stored one two rfl rfl

theorem Refines.deqRelease (old : Refines k s a) (size : k < 64) (small : pos.value.toNat < 2 ^ 63)
    (here : s.threads t = .deqRelease pos out) (there : a.threads t = .deqRelease pos.value.toNat out) :
    Matched k movedFrom initial s a t := by
  have one : s.step k movedFrom t = {s.returns t (.dequeue (some out)) with
      sequence := Function.update s.sequence (cell k pos) ⟨pos.value + BitVec.ofNat 64 (2 ^ k),pos.tag + 1⟩} := by
    simp only [MPMCQueueV2.step,here]
  have two : a.step k movedFrom t false = {a.returns t (.dequeued pos.value.toNat out) with
      sequence := Function.update a.sequence (MPMCQueue.cell k pos.value.toNat) (pos.value.toNat + 2 ^ k)
      freed := Function.update a.freed pos.value.toNat true} := by
    simp only [MPMCQueue.step,there]
  have later := old.returns (t := t) (.dequeue (some out)) (.dequeued pos.value.toNat out)
  have stored : Refines k {s.returns t (.dequeue (some out)) with
      sequence := Function.update s.sequence (cell k pos) ⟨pos.value + BitVec.ofNat 64 (2 ^ k),pos.tag + 1⟩}
      {a.returns t (.dequeued pos.value.toNat out) with
        sequence := Function.update a.sequence (MPMCQueue.cell k pos.value.toNat) (pos.value.toNat + 2 ^ k)
        freed := Function.update a.freed pos.value.toNat true} :=
    ⟨old.store size pos ⟨pos.value + BitVec.ofNat 64 (2 ^ k),pos.tag + 1⟩ (lap_toNat size small),later.data,later.enqueuePos,
      later.dequeuePos,later.threads⟩
  exact .returning stored one two rfl rfl

theorem Refines.step (old : Refines k s a) (size : k < 64) (bounded : Bounded s) (t : Tid) : Matched k movedFrom initial s a t := by
  have place := old.threads t
  have known := bounded.below t
  have front := bounded.enqueue_small
  have back := bounded.dequeue_small
  cases here : s.threads t with
  | idle => exact .rests old (by simp only [MPMCQueueV2.step,here]) rfl
  | enqLoad item => exact old.enqLoad here
  | deqLoad => exact old.deqLoad here
  | enqSequence item pos =>
    rw [here] at place
    exact old.enqSequence size here (place.there rfl)
  | enqClaim item pos =>
    rw [here] at place
    exact old.enqClaim bounded here (place.there rfl)
  | enqWrite item pos =>
    rw [here] at place
    exact old.enqWrite size here (place.there rfl)
  | enqPublish pos =>
    rw [here] at place known
    exact old.enqPublish size (Nat.lt_trans known.2 front) here (place.there rfl)
  | deqSequence pos =>
    rw [here] at place known
    exact old.deqSequence size (Nat.lt_of_le_of_lt known.2 back) here (place.there rfl)
  | deqClaim pos =>
    rw [here] at place
    exact old.deqClaim bounded here (place.there rfl)
  | deqRead pos =>
    rw [here] at place
    exact old.deqRead size here (place.there rfl)
  | deqRelease pos out =>
    rw [here] at place known
    exact old.deqRelease size (Nat.lt_trans known.2 back) here (place.there rfl)

theorem idle_thread {thread : ThreadV2 T} (found : ThreadV2.isIdle thread = true) : thread = .idle := by
  cases thread with
  | idle => rfl
  | _ => cases found

-- A call begins in both queues.
theorem Refines.call {next : ThreadV2 T} (old : Refines k s a) : Refines k {s.put t next with calls := s.calls + 1}
    (a.put t (counterpart next)) := by
  have later : Refines k (s.put t next) (a.put t (counterpart next)) := old.goes .same
  exact ⟨later.cells,later.data,later.enqueuePos,later.dequeuePos,later.threads⟩

theorem matched_apply (size : k < 64) (old : Refines k s a) (bounded : Bounded s) (label : Label T Tid) (able : s.allowed label = true)
    (few : Label.isCall label = true → s.calls + 1 < 2 ^ 63) : ∃ others last,
      (MPMCQueue.machine k movedFrom initial).run a others = some last ∧
      (MPMCQueue.machine k movedFrom initial).trace MPMCQueue.sees a others = sees s label (s.apply k movedFrom label) ∧
      Refines k (s.apply k movedFrom label) last ∧ Bounded (s.apply k movedFrom label) := by
  have idle : ∀ t, s.threads t = .idle → MPMCQueue.Thread.isIdle (a.threads t) = true := by
    intro t here
    have place := old.threads t
    rw [here] at place
    rw [place.there rfl]
    rfl
  cases label with
  | enqueue t item =>
    have able : (MPMCQueue.machine k movedFrom initial).next a (.enqueue t item) = some (a.put t (.enqLoad item)) :=
      Machine.guarded_parts.mpr ⟨idle t (idle_thread able),rfl⟩
    exact ⟨_,_,Machine.run_one able,Machine.trace_one able,old.call,bounded.call (few rfl) trivial⟩
  | dequeue t =>
    have able : (MPMCQueue.machine k movedFrom initial).next a (.dequeue t) = some (a.put t .deqLoad) :=
      Machine.guarded_parts.mpr ⟨idle t (idle_thread able),rfl⟩
    exact ⟨_,_,Machine.run_one able,Machine.trace_one able,old.call,bounded.call (few rfl) trivial⟩
  | step t =>
    have moved : Matched k movedFrom initial s a t := old.step size bounded t
    obtain ⟨others,last,ran,seen,refined⟩ := moved
    exact ⟨others,last,ran,seen,refined,bounded.step k movedFrom t⟩

theorem step_calls (s : MPMCQueueV2 T Tid) (t : Tid) : (s.step k movedFrom t).calls = s.calls := by
  cases here : s.threads t with
  | enqSequence | deqSequence =>
    simp only [MPMCQueueV2.step,here]
    split
    · rfl
    · split <;> rfl
  | enqClaim | deqClaim =>
    simp only [MPMCQueueV2.step,here]
    split <;> rfl
  | _ => simp only [MPMCQueueV2.step,here,put,returns]

-- The calls that a run begins bound those it has begun at each step.
theorem few_calls (few : s.calls + labels.countP Label.isCall < 2 ^ 63) :
    (machine k movedFrom initial).Meets (fun s label => Label.isCall label = true → s.calls + 1 < 2 ^ 63) s labels := by
  induction labels generalizing s with
  | nil => trivial
  | cons label rest ih =>
    rw [List.countP_cons] at few
    refine ⟨fun call => ?_,fun after taken => ih ?_⟩
    · rw [if_pos call] at few
      omega
    · obtain ⟨_,rfl⟩ := Machine.guarded_parts.mp taken
      cases label with
      | step t =>
        change (s.step k movedFrom t).calls + _ < _
        rw [step_calls]
        simpa [Label.isCall] using few
      | enqueue | dequeue =>
        change s.calls + 1 + _ < _
        simp only [Label.isCall,if_true] at few
        omega

omit [DecidableEq Tid] in
theorem bounded_new : Bounded (new initial : MPMCQueueV2 T Tid) :=
  ⟨rfl,rfl,fun _ => trivial,⟨∅,fun _ given => given.elim,Nat.le_refl _⟩,Nat.two_pow_pos 63⟩

omit [DecidableEq Tid] in
theorem refines_new (size : k < 64) : Refines k (new initial : MPMCQueueV2 T Tid) (MPMCQueue.new initial) := by
  refine ⟨fun i inside => ?_,rfl,rfl,rfl,fun _ => .same⟩
  have most : 2 ^ k ≤ 2 ^ 63 := Nat.pow_le_pow_right (by decide) (by omega)
  change (BitVec.ofNat 64 i).toNat = i
  rw [BitVec.toNat_ofNat]
  exact Nat.mod_eq_of_lt (by omega)

-- Every run of fewer than 2^63 calls is one of the other queue to its callers,
-- and the tags of the cursors never decide an exchange.
theorem refines_MPMCQueue (size : k < 64) (few : labels.countP Label.isCall < 2 ^ 63)
    (ran : (machine k movedFrom initial).run (new initial : MPMCQueueV2 T Tid) labels = some final) :
    (∃ others last, (MPMCQueue.machine k movedFrom initial).run (MPMCQueue.new initial) others = some last ∧
      (MPMCQueue.machine k movedFrom initial).trace MPMCQueue.sees (MPMCQueue.new initial) others =
        (machine k movedFrom initial).trace sees (new initial) labels) ∧
    final.enqueuePos.tag = 0 ∧ final.dequeuePos.tag = 0 ∧
    (∀ t item pos, final.threads t = .enqClaim item pos → (final.enqueuePos = pos ↔ final.enqueuePos.value = pos.value)) ∧
    ∀ t pos, final.threads t = .deqClaim pos → (final.dequeuePos = pos ↔ final.dequeuePos.value = pos.value) := by
  have met : (machine k movedFrom initial).Meets (fun s label => Label.isCall label = true → s.calls + 1 < 2 ^ 63)
      (new initial : MPMCQueueV2 T Tid) labels := by
    apply few_calls
    change 0 + _ < _
    rw [Nat.zero_add]
    exact few
  have matched : ∀ (s : MPMCQueueV2 T Tid) (a : MPMCQueue T Tid) label after, Refines k s a ∧ Bounded s →
      (Label.isCall label = true → s.calls + 1 < 2 ^ 63) → (machine k movedFrom initial).next s label = some after →
      ∃ others last, (MPMCQueue.machine k movedFrom initial).run a others = some last ∧
        (MPMCQueue.machine k movedFrom initial).trace MPMCQueue.sees a others = sees s label after ∧
        Refines k after last ∧ Bounded after := by
    intro s a label after both few taken
    obtain ⟨able,rfl⟩ := Machine.guarded_parts.mp taken
    exact matched_apply size both.1 both.2 label able few
  obtain ⟨others,last,ended,same,_,bounded⟩ := Machine.simulates matched ⟨refines_new size,bounded_new⟩ met ran
  refine ⟨⟨others,last,ended,same⟩,bounded.enqueueTag,bounded.dequeueTag,fun t item pos here => ?_,fun t pos here => ?_⟩
  · have known := bounded.below t
    rw [here] at known
    exact cursor_iff bounded.enqueueTag known.1
  · have known := bounded.below t
    rw [here] at known
    exact cursor_iff bounded.dequeueTag known.1

-- An item enqueued by one thread and dequeued by another.
def handOver : List (Label Nat Bool) :=
  [.enqueue true 5,.step true,.step true,.step true,.step true,.step true,
    .dequeue false,.step false,.step false,.step false,.step false,.step false]

theorem handOver_refines : ∃ final others last, (machine 1 id 0).run (new 0 : MPMCQueueV2 Nat Bool) handOver = some final ∧
    final.results = [.enqueue true,.dequeue (some 5)] ∧
    (MPMCQueue.machine 1 id 0).run (MPMCQueue.new 0) others = some last ∧
    (MPMCQueue.machine 1 id 0).trace MPMCQueue.sees (MPMCQueue.new 0) others =
      (machine 1 id 0).trace sees (new 0 : MPMCQueueV2 Nat Bool) handOver := by
  have ran : ∃ final, (machine 1 id 0).run (new 0 : MPMCQueueV2 Nat Bool) handOver = some final ∧
      final.results = [.enqueue true,.dequeue (some 5)] := ⟨_,rfl,rfl⟩
  obtain ⟨final,ran,results⟩ := ran
  obtain ⟨⟨others,last,ended,same⟩,_⟩ := refines_MPMCQueue (by decide) (by decide) ran
  exact ⟨final,others,last,ran,results,ended,same⟩

end matched
end MPMCQueueV2
end NewMuduo
