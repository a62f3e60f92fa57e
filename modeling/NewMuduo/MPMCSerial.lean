import NewMuduo.Laps
import NewMuduo.MPMCRefinement
import NewMuduo.MPMCPositions

namespace NewMuduo
variable {T Q β : Type}

inductive QueueCall (T : Type) where
  | enqueue (item : T)
  | dequeue
  deriving DecidableEq, Repr

-- What a list bounded by the capacity does.
def bounded (capacity : Nat) (held : List T) : QueueCall T → List T × QueueResult T
  | .enqueue item => if held.length < capacity then (held ++ [item],.enqueue true) else (held,.enqueue false)
  | .dequeue =>
    match held with
    | [] => ([],.dequeue none)
    | first :: rest => (rest,.dequeue (some first))

-- The code of a queue under one thread: its atomic steps, each with an answer
-- that the code does not choose, from a call until it returns.
structure QueueCode (Q T β : Type) where
  new : Q
  begins : Q → QueueCall T → Q
  returned : Q → Bool
  step : Q → β → Q
  results : Q → List (QueueResult T)

namespace QueueCode
variable {code : QueueCode Q T β}

def finish (code : QueueCode Q T β) : Q → List β → Option Q
  | s,[] => if code.returned s then some s else none
  | s,answer :: rest => if code.returned s then some s else code.finish (code.step s answer) rest

def call (code : QueueCode Q T β) (s : Q) (c : QueueCall T) (answers : List β) : Option Q :=
  code.finish (code.begins s c) answers

-- One call after the other, beside the list that the calls make of an empty one.
def serial (code : QueueCode Q T β) (capacity : Nat) : Machine (Q × List T) (QueueCall T × List β) where
  start s := s = (code.new,[])
  next s label := (code.call s.1 label.1 label.2).map fun after => (after,(bounded capacity s.2 label.1).1)

-- The call returns, and with what the list gives.
def Agrees (code : QueueCode Q T β) (capacity : Nat) (enough : List β → Prop) (s : Q × List T) (c : QueueCall T) : Prop :=
  (∀ answers, enough answers → (code.call s.1 c answers).isSome) ∧
  ∀ answers after, code.call s.1 c answers = some after →
    code.results after = code.results s.1 ++ [(bounded capacity s.2 c).2]

-- All answers lead to one state, as soon as there are enough of them.
def Leads (code : QueueCode Q T β) (enough : List β → Prop) (s after : Q) : Prop :=
  ∀ answers, (code.finish s answers = none ∧ ¬enough answers) ∨ code.finish s answers = some after

theorem finish_returned (there : code.returned s = true) (answers : List β) : code.finish s answers = some s := by
  cases answers with
  | nil => rw [finish,if_pos there]
  | cons answer rest => rw [finish,if_pos there]

theorem finish_nil (busy : code.returned s = false) : code.finish s [] = none := by
  rw [finish,busy]
  rfl

theorem finish_cons (busy : code.returned s = false) (answer : β) (rest : List β) :
    code.finish s (answer :: rest) = code.finish (code.step s answer) rest := by
  rw [finish,busy]
  rfl

theorem Leads.agrees_iff {enough : List β → Prop} {capacity : Nat} {s : Q × List T} {c : QueueCall T} {after : Q}
    (leads : code.Leads enough (code.begins s.1 c) after) (answers : List β) (many : enough answers) :
    code.Agrees capacity enough s c ↔ code.results after = code.results s.1 ++ [(bounded capacity s.2 c).2] := by
  constructor
  · intro agrees
    rcases leads answers with ⟨_,few⟩ | done
    · exact absurd many few
    · exact agrees.2 answers after done
  · intro result
    refine ⟨fun answers many => ?_,fun answers found returned => ?_⟩
    · rcases leads answers with ⟨_,few⟩ | done
      · exact absurd many few
      · exact Option.isSome_of_mem done
    · rcases leads answers with ⟨none,_⟩ | done
      · cases none.symm.trans returned
      · cases Option.some.inj (done.symm.trans returned)
        exact result

theorem Leads.call {enough : List β → Prop} {s : Q × List T} {c : QueueCall T} {after found : Q} {answers : List β}
    (leads : code.Leads enough (code.begins s.1 c) after) (returned : code.call s.1 c answers = some found) : found = after := by
  rcases leads answers with ⟨none,_⟩ | done
  · cases none.symm.trans returned
  · exact Option.some.inj (returned.symm.trans done)

-- Steps that take every answer to the same state.
theorem Leads.step {enough fewer : List β → Prop} {s after : Q} (busy : code.returned s = false)
    (leads : ∀ answer, code.Leads fewer (code.step s answer) after)
    (counts : ∀ answer rest, enough (answer :: rest) → fewer rest) (none : ¬enough []) : code.Leads enough s after := by
  intro answers
  cases answers with
  | nil => exact .inl ⟨finish_nil busy,none⟩
  | cons answer rest =>
    rw [finish_cons busy]
    rcases leads answer rest with ⟨stuck,few⟩ | done
    · exact .inl ⟨stuck,fun many => few (counts answer rest many)⟩
    · exact .inr done

theorem Leads.returned {enough : List β → Prop} {s : Q} (there : code.returned s = true) : code.Leads enough s s :=
  fun answers => .inr (finish_returned there answers)

end QueueCode

namespace MPMCQueue
open QueueCode
variable {k : Nat} {movedFrom : T → T} {initial : T} {s : MPMCQueue T Unit}

def returned (s : MPMCQueue T Unit) : Bool := Thread.isIdle (s.threads ())

def begins (s : MPMCQueue T Unit) : QueueCall T → MPMCQueue T Unit
  | .enqueue item => s.put () (.enqLoad item)
  | .dequeue => s.put () .deqLoad

-- The answers say which exchanges fail spuriously.
def code (k : Nat) (movedFrom : T → T) (initial : T) : QueueCode (MPMCQueue T Unit) T Bool where
  new := new initial
  begins := begins
  returned := returned
  step s spurious := s.step k movedFrom () spurious
  results s := s.outcomes.map result

-- Every spurious failure costs two steps.
def enough (steps : Nat) (answers : List Bool) : Prop := steps + 2 * answers.count true ≤ answers.length

instance {steps : Nat} {answers : List Bool} : Decidable (enough steps answers) := inferInstanceAs (Decidable (_ ≤ _))

theorem enough_cons {steps : Nat} (answer : Bool) (rest : List Bool) (many : enough (steps + 1) (answer :: rest)) :
    enough steps rest := by
  unfold enough at many ⊢
  rw [List.length_cons] at many
  have more : rest.count true ≤ (answer :: rest).count true := List.count_le_count_cons
  omega

theorem enough_spurious {steps : Nat} (rest : List Bool) (many : enough steps (true :: rest)) : enough (steps + 1) rest := by
  unfold enough at many ⊢
  rw [List.length_cons,List.count_cons_self] at many
  omega

theorem enough_none (steps : Nat) : ¬enough (steps + 1) [] := by
  unfold enough
  intro many
  rw [List.length_nil] at many
  omega

@[simp] theorem put_here (s : MPMCQueue T Unit) (thread : Thread T) : (s.put () thread).threads () = thread := by
  simp [put]

section calls
variable {item : T} {pos : Nat}

-- What an enqueue leaves that has claimed a position.
def enqueued (k : Nat) (s : MPMCQueue T Unit) (item : T) (pos : Nat) : MPMCQueue T Unit :=
  {s.put () .idle with
    sequence := Function.update s.sequence (cell k pos) (pos + 1)
    data := Function.update s.data (cell k pos) item
    enqueuePos := pos + 1
    won := s.won ++ [item]
    filled := Function.update s.filled pos true
    outcomes := s.outcomes ++ [.enqueued pos]}

def dequeued (k : Nat) (movedFrom : T → T) (s : MPMCQueue T Unit) (pos : Nat) : MPMCQueue T Unit :=
  {s.put () .idle with
    sequence := Function.update s.sequence (cell k pos) (pos + 2 ^ k)
    data := Function.update s.data (cell k pos) (movedFrom (s.data (cell k pos)))
    dequeuePos := pos + 1
    left := s.left ++ [pos]
    freed := Function.update s.freed pos true
    outcomes := s.outcomes ++ [.dequeued pos (s.data (cell k pos))]}

theorem busy {thread : Thread T} (here : s.threads () = thread) (working : Thread.isIdle thread = false) :
    (code k movedFrom initial).returned s = false := by
  change Thread.isIdle (s.threads ()) = false
  rw [here]
  exact working

theorem idle_returned (here : s.threads () = .idle) : (code k movedFrom initial).returned s = true := by
  change Thread.isIdle (s.threads ()) = true
  rw [here]
  rfl

-- A step that no answer changes.
theorem step_leads {thread : Thread T} {next after : MPMCQueue T Unit} {steps : Nat} (here : s.threads () = thread)
    (working : Thread.isIdle thread = false) (taken : ∀ spurious, s.step k movedFrom () spurious = next)
    (leads : Leads (code k movedFrom initial) (enough steps) next after) :
    Leads (code k movedFrom initial) (enough (steps + 1)) s after := by
  refine Leads.step (busy here working) (fun spurious => ?_) enough_cons (enough_none _)
  have same : (code k movedFrom initial).step s spurious = next := taken spurious
  rw [same]
  exact leads

theorem put_enqLoad (s : MPMCQueue T Unit) (item : T) (spurious : Bool) :
    (s.put () (.enqLoad item)).step k movedFrom () spurious = s.put () (.enqSequence item s.enqueuePos) := by
  simp [step,put]

theorem put_deqLoad (s : MPMCQueue T Unit) (spurious : Bool) :
    (s.put () .deqLoad).step k movedFrom () spurious = s.put () (.deqSequence s.dequeuePos) := by
  simp [step,put]

-- A loop that looks at its cell, finds it ready and tries the exchange: only a
-- spurious failure goes back to the look.
theorem loop_leads (looks claims : MPMCQueue T Unit) {won after : MPMCQueue T Unit} {steps : Nat}
    (busy : (code k movedFrom initial).returned looks = false) (busyToo : (code k movedFrom initial).returned claims = false)
    (ready : ∀ spurious, looks.step k movedFrom () spurious = claims) (failed : claims.step k movedFrom () true = looks)
    (taken : claims.step k movedFrom () false = won)
    (rest : Leads (code k movedFrom initial) (enough steps) won after) :
    Leads (code k movedFrom initial) (enough (steps + 2)) looks after ∧
    Leads (code k movedFrom initial) (enough (steps + 1)) claims after := by
  have both : ∀ answers,
      (((code k movedFrom initial).finish looks answers = none ∧ ¬enough (steps + 2) answers) ∨
        (code k movedFrom initial).finish looks answers = some after) ∧
      (((code k movedFrom initial).finish claims answers = none ∧ ¬enough (steps + 1) answers) ∨
        (code k movedFrom initial).finish claims answers = some after) := by
    intro answers
    induction answers with
    | nil => exact ⟨.inl ⟨finish_nil busy,enough_none _⟩,.inl ⟨finish_nil busyToo,enough_none _⟩⟩
    | cons spurious more ih =>
      rw [finish_cons busy,finish_cons busyToo]
      constructor
      · have next : (code k movedFrom initial).step looks spurious = claims := ready spurious
        rw [next]
        rcases ih.2 with ⟨stuck,few⟩ | done
        · exact .inl ⟨stuck,fun many => few (enough_cons spurious more many)⟩
        · exact .inr done
      · cases spurious with
        | true =>
          have next : (code k movedFrom initial).step claims true = looks := failed
          rw [next]
          rcases ih.1 with ⟨stuck,few⟩ | done
          · exact .inl ⟨stuck,fun many => few (enough_spurious more many)⟩
          · exact .inr done
        | false =>
          have next : (code k movedFrom initial).step claims false = won := taken
          rw [next]
          rcases rest more with ⟨stuck,few⟩ | done
          · exact .inl ⟨stuck,fun many => few (enough_cons false more many)⟩
          · exact .inr done
  exact ⟨fun answers => (both answers).1,fun answers => (both answers).2⟩

theorem enqueue_leads (free : s.sequence (cell k s.enqueuePos) = s.enqueuePos) (item : T) :
    Leads (code k movedFrom initial) (enough 5) (s.put () (.enqLoad item)) (enqueued k s item s.enqueuePos) := by
  have wrote : ∀ spurious, {s.put () (.enqWrite item s.enqueuePos) with
        enqueuePos := s.enqueuePos + 1,won := s.won ++ [item]}.step k movedFrom () spurious =
      {s.put () (.enqPublish s.enqueuePos) with
        enqueuePos := s.enqueuePos + 1
        won := s.won ++ [item]
        data := Function.update s.data (cell k s.enqueuePos) item} := by
    intro spurious
    simp [step,put]
  have published : ∀ spurious, {s.put () (.enqPublish s.enqueuePos) with
        enqueuePos := s.enqueuePos + 1
        won := s.won ++ [item]
        data := Function.update s.data (cell k s.enqueuePos) item}.step k movedFrom () spurious = enqueued k s item s.enqueuePos := by
    intro spurious
    simp [step,put,returns,enqueued]
  have written : Leads (code k movedFrom initial) (enough 2)
      {s.put () (.enqWrite item s.enqueuePos) with enqueuePos := s.enqueuePos + 1,won := s.won ++ [item]}
      (enqueued k s item s.enqueuePos) := by
    refine step_leads (put_here s _) rfl wrote ?_
    refine step_leads (put_here s _) rfl published ?_
    exact Leads.returned (idle_returned (put_here s _))
  obtain ⟨looks,_⟩ := loop_leads (s.put () (.enqSequence item s.enqueuePos)) (s.put () (.enqClaim item s.enqueuePos))
    (busy (put_here s _) rfl) (busy (put_here s _) rfl) (fun _ => by simp [step,put,free]) (by simp [step,put]) (by simp [step,put]) written
  exact step_leads (put_here s _) rfl (put_enqLoad s item) looks

theorem dequeue_leads (filled : s.sequence (cell k s.dequeuePos) = s.dequeuePos + 1) :
    Leads (code k movedFrom initial) (enough 5) (s.put () .deqLoad) (dequeued k movedFrom s s.dequeuePos) := by
  have read : ∀ spurious, {s.put () (.deqRead s.dequeuePos) with
        dequeuePos := s.dequeuePos + 1,left := s.left ++ [s.dequeuePos]}.step k movedFrom () spurious =
      {s.put () (.deqRelease s.dequeuePos (s.data (cell k s.dequeuePos))) with
        dequeuePos := s.dequeuePos + 1
        left := s.left ++ [s.dequeuePos]
        data := Function.update s.data (cell k s.dequeuePos) (movedFrom (s.data (cell k s.dequeuePos)))} := by
    intro spurious
    simp [step,put]
  have released : ∀ spurious, {s.put () (.deqRelease s.dequeuePos (s.data (cell k s.dequeuePos))) with
        dequeuePos := s.dequeuePos + 1
        left := s.left ++ [s.dequeuePos]
        data := Function.update s.data (cell k s.dequeuePos) (movedFrom (s.data (cell k s.dequeuePos)))}.step k movedFrom () spurious =
      dequeued k movedFrom s s.dequeuePos := by
    intro spurious
    simp [step,put,returns,dequeued]
  have claimed : Leads (code k movedFrom initial) (enough 2)
      {s.put () (.deqRead s.dequeuePos) with dequeuePos := s.dequeuePos + 1,left := s.left ++ [s.dequeuePos]}
      (dequeued k movedFrom s s.dequeuePos) := by
    refine step_leads (put_here s _) rfl read ?_
    refine step_leads (put_here s _) rfl released ?_
    exact Leads.returned (idle_returned (put_here s _))
  obtain ⟨looks,_⟩ := loop_leads (s.put () (.deqSequence s.dequeuePos)) (s.put () (.deqClaim s.dequeuePos))
    (busy (put_here s _) rfl) (busy (put_here s _) rfl) (fun _ => by simp [step,put,filled]) (by simp [step,put]) (by simp [step,put]) claimed
  exact step_leads (put_here s _) rfl (put_deqLoad s) looks

-- A call that finds its cell behind its position is refused.
theorem enqueue_refused (behind : s.sequence (cell k s.enqueuePos) < s.enqueuePos) (item : T) :
    Leads (code k movedFrom initial) (enough 5) (s.put () (.enqLoad item)) (s.returns ()
      (.full s.enqueuePos (s.enqueuePos < 2 ^ k || s.freed (s.enqueuePos - 2 ^ k)))) := by
  have looked : ∀ spurious, (s.put () (.enqSequence item s.enqueuePos)).step k movedFrom () spurious = s.returns ()
      (.full s.enqueuePos (s.enqueuePos < 2 ^ k || s.freed (s.enqueuePos - 2 ^ k))) := fun spurious =>
    (step_full _ movedFrom spurious (put_here s _) behind).trans (by simp [returns,put])
  refine step_leads (put_here s _) rfl (put_enqLoad s item) ?_
  refine step_leads (put_here s _) rfl looked ?_
  exact Leads.returned (idle_returned (put_here s _))

theorem dequeue_refused (behind : s.sequence (cell k s.dequeuePos) < s.dequeuePos + 1) :
    Leads (code k movedFrom initial) (enough 5) (s.put () .deqLoad) (s.returns () (.empty s.dequeuePos (s.filled s.dequeuePos))) := by
  have looked : ∀ spurious, (s.put () (.deqSequence s.dequeuePos)).step k movedFrom () spurious =
      s.returns () (.empty s.dequeuePos (s.filled s.dequeuePos)) := fun spurious =>
    (step_empty _ movedFrom spurious (put_here s _) behind).trans (by simp [returns,put])
  refine step_leads (put_here s _) rfl (put_deqLoad s) ?_
  refine step_leads (put_here s _) rfl looked ?_
  exact Leads.returned (idle_returned (put_here s _))

end calls

-- A size_t as an intptr_t, and the operands of the subtraction of a call.
def intptr (n : Nat) : Int := (BitVec.ofNat 64 n).toInt

def subtracts (k : Nat) (s : MPMCQueue T Unit) : QueueCall T → Nat × Nat
  | .enqueue _ => (s.sequence (cell k s.enqueuePos),s.enqueuePos)
  | .dequeue => (s.sequence (cell k s.dequeuePos),s.dequeuePos + 1)

-- The signed subtraction does not overflow: it gives the distance.
def Sound (k : Nat) (s : MPMCQueue T Unit) (c : QueueCall T) : Prop :=
  intptr (subtracts k s c).1 - intptr (subtracts k s c).2 = (subtracts k s c).1 - (subtracts k s c).2

-- A full queue has more than one cell, and neither a full nor an empty queue
-- compares a number below 2^63 with one that is not.
def Safe (k : Nat) (s : MPMCQueue T Unit × List T) : QueueCall T → Prop
  | .enqueue _ => s.2.length = 2 ^ k → 0 < k ∧
    ((s.1.dequeuePos + 1) % 2 ^ 64 < 2 ^ 63 → s.1.enqueuePos % 2 ^ 64 < 2 ^ 63)
  | .dequeue => s.2 = [] → s.1.dequeuePos % 2 ^ 64 ≠ 2 ^ 63 - 1

instance {s : MPMCQueue T Unit × List T} {c : QueueCall T} [DecidableEq T] : Decidable (Safe k s c) :=
  match c with
  | .enqueue _ => inferInstanceAs (Decidable (s.2.length = 2 ^ k → 0 < k ∧
      ((s.1.dequeuePos + 1) % 2 ^ 64 < 2 ^ 63 → s.1.enqueuePos % 2 ^ 64 < 2 ^ 63)))
  | .dequeue => inferInstanceAs (Decidable (s.2 = [] → s.1.dequeuePos % 2 ^ 64 ≠ 2 ^ 63 - 1))

-- Between the calls: the ring holds the list.
structure Serially (k : Nat) (s : MPMCQueue T Unit × List T) : Prop where
  enqueuePos : s.1.enqueuePos = s.1.dequeuePos + s.2.length
  laps : Laps id (2 ^ k) s.1.sequence s.1.data s.1.dequeuePos s.2

theorem intptr_cases (n : Nat) : n % 2 ^ 64 < 2 ^ 63 ∧ intptr n = (n % 2 ^ 64 : Nat) ∨
    2 ^ 63 ≤ n % 2 ^ 64 ∧ intptr n = (n % 2 ^ 64 : Nat) - 2 ^ 64 := by
  unfold intptr
  rw [BitVec.toInt_eq_toNat_cond,BitVec.toNat_ofNat]
  split
  · exact .inl ⟨by omega,rfl⟩
  · exact .inr ⟨by omega,rfl⟩

theorem sound_iff {seq pos : Nat} (below : seq < pos) (near : pos ≤ seq + 2 ^ 63 - 1) :
    intptr seq - intptr pos = seq - pos ↔ (seq % 2 ^ 64 < 2 ^ 63 → pos % 2 ^ 64 < 2 ^ 63) := by
  rcases intptr_cases seq with ⟨one,value⟩ | ⟨one,value⟩
  · rcases intptr_cases pos with ⟨two,other⟩ | ⟨two,other⟩
    · rw [value,other]
      omega
    · rw [value,other]
      omega
  · rcases intptr_cases pos with ⟨two,other⟩ | ⟨two,other⟩
    · rw [value,other]
      omega
    · rw [value,other]
      omega

variable {s : MPMCQueue T Unit × List T}

theorem Serially.enqueue_cell (old : Serially k s) : cell k s.1.enqueuePos = (s.1.dequeuePos + s.2.length) % 2 ^ k := by
  rw [cell_mod,old.enqueuePos]

-- Where a call leads: it agrees with the list exactly when it is safe, and a
-- safe one leaves the ring with what the list holds.
theorem Serially.leads (old : Serially k s) (size : k < 64) (movedFrom : T → T) (initial : T) (c : QueueCall T) :
    ∃ after, Leads (code k movedFrom initial) (enough 5) (begins s.1 c) after ∧
      (Sound k s.1 c ∧ after.outcomes.map result = s.1.outcomes.map result ++ [(bounded (2 ^ k) s.2 c).2] ↔ Safe k s c) ∧
      (Safe k s c → Serially k (after,(bounded (2 ^ k) s.2 c).1)) := by
  have laps := old.laps
  have most : 2 ^ k ≤ 2 ^ 63 := Nat.pow_le_pow_right (by decide) (by omega)
  cases c with
  | enqueue item =>
    rcases Nat.lt_or_eq_of_le laps.room with room | full
    · have free : s.1.sequence (cell k s.1.enqueuePos) = s.1.enqueuePos := by
        rw [old.enqueue_cell,old.enqueuePos]
        exact laps.next_free room
      refine ⟨_,enqueue_leads free item,?_,fun _ => ?_⟩
      · refine iff_of_true ⟨?_,?_⟩ fun full => absurd full (Nat.ne_of_lt room)
        · simp [Sound,subtracts,free]
        · simp [enqueued,bounded,room,result]
      · have pushed := laps.push room item
        rw [← old.enqueue_cell,← old.enqueuePos] at pushed
        rw [bounded,if_pos room]
        refine ⟨?_,pushed⟩
        simp only [enqueued,put,List.length_append,List.length_singleton]
        rw [old.enqueuePos,Nat.add_assoc]
    · have last : s.1.sequence (cell k s.1.enqueuePos) = s.1.dequeuePos + 1 := by
        rw [old.enqueue_cell]
        exact laps.next_full full
      have next := old.enqueuePos
      rw [full] at next
      rcases Nat.eq_zero_or_pos k with rfl | large
      · have free : s.1.sequence (cell 0 s.1.enqueuePos) = s.1.enqueuePos := last.trans next.symm
        refine ⟨_,enqueue_leads free item,iff_of_false ?_ ?_,fun safe => ?_⟩
        · rintro ⟨_,result⟩
          simp [enqueued,bounded,full,MPMCQueue.result] at result
        · exact fun safe => Nat.lt_irrefl 0 (safe full).1
        · exact absurd (safe full).1 (Nat.lt_irrefl 0)
      · have two : 2 ^ 1 ≤ 2 ^ k := Nat.pow_le_pow_right (Nat.succ_pos 1) large
        refine ⟨_,enqueue_refused (by omega) item,?_,fun _ => ?_⟩
        · have sound := @sound_iff (s.1.dequeuePos + 1) s.1.enqueuePos (by omega) (by omega)
          simp only [Sound,subtracts,last]
          rw [sound]
          simp [Safe,full,large,returns,put,bounded,result]
        · rw [bounded,if_neg (by omega)]
          exact ⟨old.enqueuePos,laps⟩
  | dequeue =>
    have here : cell k s.1.dequeuePos = s.1.dequeuePos % 2 ^ k := cell_mod k s.1.dequeuePos
    cases held : s.2 with
    | nil =>
      rw [held] at laps
      have waiting : s.1.sequence (cell k s.1.dequeuePos) = s.1.dequeuePos := by
        rw [here]
        exact laps.none
      refine ⟨_,dequeue_refused (by omega),?_,fun _ => ⟨?_,laps⟩⟩
      · have sound := @sound_iff s.1.dequeuePos (s.1.dequeuePos + 1) (by omega) (by omega)
        simp only [Sound,subtracts,waiting]
        rw [sound]
        simp only [Safe,held,returns,put,bounded,result,List.map_append,List.map_cons,List.map_nil,and_true,true_imp_iff]
        omega
      · have next := old.enqueuePos
        rw [held] at next
        exact next
    | cons item rest =>
      rw [held] at laps
      obtain ⟨mark,value⟩ := laps.first
      have filled : s.1.sequence (cell k s.1.dequeuePos) = s.1.dequeuePos + 1 := by
        rw [here]
        exact mark
      refine ⟨_,dequeue_leads filled,?_,fun _ => ?_⟩
      · refine iff_of_true ⟨?_,?_⟩ fun none => ?_
        · simp [Sound,subtracts,filled]
        · simp [dequeued,bounded,result,here,value]
        · rw [held] at none
          cases none
      · have others : ∀ i, i ≠ s.1.dequeuePos % 2 ^ k → (dequeued k movedFrom s.1 s.1.dequeuePos).data i = s.1.data i := by
          intro i other
          rw [← here] at other
          exact Function.update_of_ne other _ _
        have popped := laps.pop others
        rw [← here] at popped
        refine ⟨?_,popped⟩
        have next := old.enqueuePos
        rw [held,List.length_cons] at next
        simp only [dequeued,put,bounded]
        omega

-- What the list gives, by the code, and with no overflow on the way.
def Correct (k : Nat) (movedFrom : T → T) (initial : T) (s : MPMCQueue T Unit × List T) (label : QueueCall T × List Bool) : Prop :=
  Sound k s.1 label.1 ∧ (code k movedFrom initial).Agrees (2 ^ k) (enough 5) s label.1

theorem Serially.correct_iff (old : Serially k s) (size : k < 64) (label : QueueCall T × List Bool) :
    Correct k movedFrom initial s label ↔ Safe k s label.1 := by
  obtain ⟨after,leads,exactly,_⟩ := old.leads size movedFrom initial label.1
  rw [Correct,leads.agrees_iff (List.replicate 5 false) (by decide)]
  exact exactly

theorem Serially.step (old : Serially k s) (size : k < 64) {label : QueueCall T × List Bool} (safe : Safe k s label.1)
    (taken : ((code k movedFrom initial).serial (2 ^ k)).next s label = some after) : Serially k after := by
  obtain ⟨final,leads,_,kept⟩ := old.leads size movedFrom initial label.1
  obtain ⟨found,returned,same⟩ := Option.map_eq_some_iff.mp taken
  rw [← same,leads.call returned]
  exact kept safe

theorem serially_new (k : Nat) (movedFrom : T → T) (initial : T) : Serially k ((code k movedFrom initial).new,[]) := by
  refine ⟨rfl,Laps.start (Nat.two_pow_pos k) fun _ _ => rfl⟩

theorem correct_iff_safe (size : k < 64) (movedFrom : T → T) (initial : T) (calls : List (QueueCall T × List Bool)) :
    ((code k movedFrom initial).serial (2 ^ k)).Meets (Correct k movedFrom initial) ((code k movedFrom initial).new,[]) calls ↔
      ((code k movedFrom initial).serial (2 ^ k)).Meets (fun s label => Safe k s label.1) ((code k movedFrom initial).new,[]) calls :=
  Machine.meets_iff_meets (fun _ _ _ old safe taken => old.step size safe taken) (fun _ label old => old.correct_iff size label)
    (serially_new k movedFrom initial)

end MPMCQueue
end NewMuduo
