import NewMuduo.MPMCSerial

namespace NewMuduo

namespace QueueCode
variable {T Q β : Type} {code : QueueCode Q T β}

-- No answers make the call return.
def Endless (code : QueueCode Q T β) (s : Q) : Prop := ∀ answers, code.finish s answers = none

theorem Endless.disagrees {enough : List β → Prop} {capacity : Nat} {s : Q × List T} {c : QueueCall T}
    (endless : code.Endless (code.begins s.1 c)) (answers : List β) (many : enough answers) : ¬code.Agrees capacity enough s c := by
  intro agrees
  have found := agrees.1 answers many
  rw [call,endless answers] at found
  cases found

end QueueCode

namespace MPMCQueueV2
open QueueCode
variable {T : Type} {k : Nat} {movedFrom : T → T} {initial : T} {s : MPMCQueueV2 T Unit} {item : T}

def returned (s : MPMCQueueV2 T Unit) : Bool := ThreadV2.isIdle (s.threads ())

def begins (s : MPMCQueueV2 T Unit) : QueueCall T → MPMCQueueV2 T Unit
  | .enqueue item => {s.put () (.enqLoad item) with calls := s.calls + 1}
  | .dequeue => {s.put () .deqLoad with calls := s.calls + 1}

-- dwCAS has no answer to give: it succeeds when the words are the same.
def code (k : Nat) (movedFrom : T → T) (initial : T) : QueueCode (MPMCQueueV2 T Unit) T Unit where
  new := new initial
  begins := begins
  returned := returned
  step s _ := s.step k movedFrom ()
  results := results

def enough (steps : Nat) (answers : List Unit) : Prop := steps ≤ answers.length

instance {steps : Nat} {answers : List Unit} : Decidable (enough steps answers) := inferInstanceAs (Decidable (_ ≤ _))

theorem enough_cons {steps : Nat} (answer : Unit) (rest : List Unit) (many : enough (steps + 1) (answer :: rest)) :
    enough steps rest := Nat.le_of_succ_le_succ many

theorem enough_none (steps : Nat) : ¬enough (steps + 1) [] := Nat.not_succ_le_zero steps

@[simp] theorem put_here (s : MPMCQueueV2 T Unit) (thread : ThreadV2 T) : (s.put () thread).threads () = thread := by
  simp [put]

theorem busy {thread : ThreadV2 T} (here : s.threads () = thread) (working : ThreadV2.isIdle thread = false) :
    (code k movedFrom initial).returned s = false := by
  change ThreadV2.isIdle (s.threads ()) = false
  rw [here]
  exact working

theorem idle_returned (here : s.threads () = .idle) : (code k movedFrom initial).returned s = true := by
  change ThreadV2.isIdle (s.threads ()) = true
  rw [here]
  rfl

-- One step of a call under way.
theorem step_leads {thread : ThreadV2 T} {next after : MPMCQueueV2 T Unit} {steps : Nat} (here : s.threads () = thread)
    (working : ThreadV2.isIdle thread = false) (taken : s.step k movedFrom () = next)
    (leads : Leads (code k movedFrom initial) (enough steps) next after) :
    Leads (code k movedFrom initial) (enough (steps + 1)) s after := by
  refine Leads.step (busy here working) (fun _ => ?_) enough_cons (enough_none _)
  have same : (code k movedFrom initial).step s () = next := taken
  rw [same]
  exact leads

-- What an enqueue leaves that has claimed its position, and a dequeue.
def enqueued (k : Nat) (s : MPMCQueueV2 T Unit) (item : T) : MPMCQueueV2 T Unit :=
  {s.put () .idle with
    sequence := Function.update s.sequence (cell k s.enqueuePos) ⟨s.enqueuePos.value + 1,s.enqueuePos.tag⟩
    data := Function.update s.data (cell k s.enqueuePos) item
    enqueuePos := ⟨s.enqueuePos.value + 1,s.enqueuePos.tag⟩
    calls := s.calls + 1
    results := s.results ++ [.enqueue true]}

def dequeued (k : Nat) (movedFrom : T → T) (s : MPMCQueueV2 T Unit) : MPMCQueueV2 T Unit :=
  {s.put () .idle with
    sequence := Function.update s.sequence (cell k s.dequeuePos)
      ⟨s.dequeuePos.value + BitVec.ofNat 64 (2 ^ k),s.dequeuePos.tag + 1⟩
    data := Function.update s.data (cell k s.dequeuePos) (movedFrom (s.data (cell k s.dequeuePos)))
    dequeuePos := ⟨s.dequeuePos.value + 1,s.dequeuePos.tag⟩
    calls := s.calls + 1
    results := s.results ++ [.dequeue (some (s.data (cell k s.dequeuePos)))]}

-- The state of a call that has done nothing but look.
def calling (s : MPMCQueueV2 T Unit) (thread : ThreadV2 T) : MPMCQueueV2 T Unit := {s.put () thread with calls := s.calls + 1}

@[simp] theorem calling_here (s : MPMCQueueV2 T Unit) (thread : ThreadV2 T) : (s.calling thread).threads () = thread :=
  put_here s thread

theorem calling_calling (s : MPMCQueueV2 T Unit) (one two : ThreadV2 T) : (s.calling one).put () two = s.calling two := by
  simp [calling,put]

theorem calling_enqLoad (s : MPMCQueueV2 T Unit) (item : T) :
    (s.calling (.enqLoad item)).step k movedFrom () = s.calling (.enqSequence item s.enqueuePos) := by
  simp [step,calling,put]

theorem calling_deqLoad (s : MPMCQueueV2 T Unit) :
    (s.calling .deqLoad).step k movedFrom () = s.calling (.deqSequence s.dequeuePos) := by
  simp [step,calling,put]

theorem enqueue_leads (free : (s.sequence (cell k s.enqueuePos)).value = s.enqueuePos.value) (item : T) :
    Leads (code k movedFrom initial) (enough 5) (begins s (.enqueue item)) (enqueued k s item) := by
  have looked : (s.calling (.enqSequence item s.enqueuePos)).step k movedFrom () = s.calling (.enqClaim item s.enqueuePos) := by
    simp [step,calling,put,free]
  have claimed : (s.calling (.enqClaim item s.enqueuePos)).step k movedFrom () =
      {s.calling (.enqWrite item s.enqueuePos) with enqueuePos := ⟨s.enqueuePos.value + 1,s.enqueuePos.tag⟩} := by
    simp [step,calling,put]
  have wrote : {s.calling (.enqWrite item s.enqueuePos) with
        enqueuePos := ⟨s.enqueuePos.value + 1,s.enqueuePos.tag⟩}.step k movedFrom () =
      {s.calling (.enqPublish s.enqueuePos) with
        enqueuePos := ⟨s.enqueuePos.value + 1,s.enqueuePos.tag⟩
        data := Function.update s.data (cell k s.enqueuePos) item} := by
    simp [step,calling,put]
  have published : {s.calling (.enqPublish s.enqueuePos) with
        enqueuePos := ⟨s.enqueuePos.value + 1,s.enqueuePos.tag⟩
        data := Function.update s.data (cell k s.enqueuePos) item}.step k movedFrom () = enqueued k s item := by
    simp [step,calling,put,returns,enqueued]
  refine step_leads (put_here s _) rfl (calling_enqLoad s item) ?_
  refine step_leads (put_here s _) rfl looked ?_
  refine step_leads (put_here s _) rfl claimed ?_
  refine step_leads (put_here s _) rfl wrote ?_
  refine step_leads (put_here s _) rfl published ?_
  exact Leads.returned (idle_returned (put_here s _))

theorem dequeue_leads (filled : (s.sequence (cell k s.dequeuePos)).value = s.dequeuePos.value + 1) :
    Leads (code k movedFrom initial) (enough 5) (begins s .dequeue) (dequeued k movedFrom s) := by
  have looked : (s.calling (.deqSequence s.dequeuePos)).step k movedFrom () = s.calling (.deqClaim s.dequeuePos) := by
    simp [step,calling,put,filled]
  have claimed : (s.calling (.deqClaim s.dequeuePos)).step k movedFrom () =
      {s.calling (.deqRead s.dequeuePos) with dequeuePos := ⟨s.dequeuePos.value + 1,s.dequeuePos.tag⟩} := by
    simp [step,calling,put]
  have read : {s.calling (.deqRead s.dequeuePos) with
        dequeuePos := ⟨s.dequeuePos.value + 1,s.dequeuePos.tag⟩}.step k movedFrom () =
      {s.calling (.deqRelease s.dequeuePos (s.data (cell k s.dequeuePos))) with
        dequeuePos := ⟨s.dequeuePos.value + 1,s.dequeuePos.tag⟩
        data := Function.update s.data (cell k s.dequeuePos) (movedFrom (s.data (cell k s.dequeuePos)))} := by
    simp [step,calling,put]
  have released : {s.calling (.deqRelease s.dequeuePos (s.data (cell k s.dequeuePos))) with
        dequeuePos := ⟨s.dequeuePos.value + 1,s.dequeuePos.tag⟩
        data := Function.update s.data (cell k s.dequeuePos) (movedFrom (s.data (cell k s.dequeuePos)))}.step k movedFrom () =
      dequeued k movedFrom s := by
    simp [step,calling,put,returns,dequeued]
  refine step_leads (put_here s _) rfl (calling_deqLoad s) ?_
  refine step_leads (put_here s _) rfl looked ?_
  refine step_leads (put_here s _) rfl claimed ?_
  refine step_leads (put_here s _) rfl read ?_
  refine step_leads (put_here s _) rfl released ?_
  exact Leads.returned (idle_returned (put_here s _))

-- A call that finds its cell behind its position is refused.
def refused (s : MPMCQueueV2 T Unit) (result : QueueResult T) : MPMCQueueV2 T Unit :=
  {s.calling .idle with results := s.results ++ [result]}

theorem enqueue_refused (behind : (s.sequence (cell k s.enqueuePos)).value < s.enqueuePos.value) (item : T) :
    Leads (code k movedFrom initial) (enough 5) (begins s (.enqueue item)) (s.refused (.enqueue false)) := by
  have looked : (s.calling (.enqSequence item s.enqueuePos)).step k movedFrom () = s.refused (.enqueue false) := by
    have apart : (s.sequence (cell k s.enqueuePos)).value ≠ s.enqueuePos.value := BitVec.ne_of_lt behind
    simp [step,calling,put,returns,refused,apart,behind]
  refine step_leads (put_here s _) rfl (calling_enqLoad s item) ?_
  refine step_leads (put_here s _) rfl looked ?_
  exact Leads.returned (idle_returned (put_here s _))

theorem dequeue_refused (behind : (s.sequence (cell k s.dequeuePos)).value < s.dequeuePos.value + 1) :
    Leads (code k movedFrom initial) (enough 5) (begins s .dequeue) (s.refused (.dequeue none)) := by
  have looked : (s.calling (.deqSequence s.dequeuePos)).step k movedFrom () = s.refused (.dequeue none) := by
    have apart : (s.sequence (cell k s.dequeuePos)).value ≠ s.dequeuePos.value + 1 := BitVec.ne_of_lt behind
    unfold step
    rw [calling_here]
    dsimp only
    refine (if_neg apart).trans ((if_pos behind).trans ?_)
    simp [returns,calling,put,refused]
  refine step_leads (put_here s _) rfl (calling_deqLoad s) ?_
  refine step_leads (put_here s _) rfl looked ?_
  exact Leads.returned (idle_returned (put_here s _))

-- A call that finds its cell ahead of its position reloads the same position.
theorem endless {loads looks : MPMCQueueV2 T Unit} (busy : (code k movedFrom initial).returned loads = false)
    (busyToo : (code k movedFrom initial).returned looks = false)
    (loaded : loads.step k movedFrom () = looks) (back : looks.step k movedFrom () = loads) :
    (code k movedFrom initial).Endless loads := by
  have both : ∀ answers, (code k movedFrom initial).finish loads answers = none ∧
      (code k movedFrom initial).finish looks answers = none := by
    intro answers
    induction answers with
    | nil => exact ⟨finish_nil busy,finish_nil busyToo⟩
    | cons answer rest ih =>
      rw [finish_cons busy,finish_cons busyToo]
      have next : (code k movedFrom initial).step loads answer = looks := loaded
      have again : (code k movedFrom initial).step looks answer = loads := back
      rw [next,again]
      exact ⟨ih.2,ih.1⟩
  exact fun answers => (both answers).1

theorem enqueue_endless (ahead : s.enqueuePos.value < (s.sequence (cell k s.enqueuePos)).value) (item : T) :
    (code k movedFrom initial).Endless (begins s (.enqueue item)) := by
  have looked : (s.calling (.enqSequence item s.enqueuePos)).step k movedFrom () = s.calling (.enqLoad item) := by
    have apart : (s.sequence (cell k s.enqueuePos)).value ≠ s.enqueuePos.value := (BitVec.ne_of_lt ahead).symm
    simp [step,calling,put,apart,BitVec.lt_asymm ahead]
  exact endless (busy (calling_here s _) rfl) (busy (calling_here s _) rfl) (calling_enqLoad s item) looked

theorem dequeue_endless (ahead : s.dequeuePos.value + 1 < (s.sequence (cell k s.dequeuePos)).value) :
    (code k movedFrom initial).Endless (begins s .dequeue) := by
  have looked : (s.calling (.deqSequence s.dequeuePos)).step k movedFrom () = s.calling .deqLoad := by
    have apart : (s.sequence (cell k s.dequeuePos)).value ≠ s.dequeuePos.value + 1 := (BitVec.ne_of_lt ahead).symm
    unfold step
    rw [calling_here]
    dsimp only
    exact (if_neg apart).trans ((if_neg (BitVec.lt_asymm ahead)).trans (calling_calling s _ _))
  exact endless (busy (calling_here s _) rfl) (busy (calling_here s _) rfl) (calling_deqLoad s) looked

-- A full queue has more than one cell, and no cursor has just come round from
-- 2^64 - 1 to 0 where the words of a full or an empty queue are compared.
def Safe (k : Nat) (s : MPMCQueueV2 T Unit × List T) : QueueCall T → Prop
  | .enqueue _ => s.2.length = 2 ^ k → 0 < k ∧ 2 ^ k - 1 ≤ s.1.enqueuePos.value.toNat
  | .dequeue => s.2 = [] → s.1.dequeuePos.value.toNat ≠ 2 ^ 64 - 1

instance {s : MPMCQueueV2 T Unit × List T} {c : QueueCall T} [DecidableEq T] : Decidable (Safe k s c) :=
  match c with
  | .enqueue _ => inferInstanceAs (Decidable (s.2.length = 2 ^ k → 0 < k ∧ 2 ^ k - 1 ≤ s.1.enqueuePos.value.toNat))
  | .dequeue => inferInstanceAs (Decidable (s.2 = [] → s.1.dequeuePos.value.toNat ≠ 2 ^ 64 - 1))

-- Between the calls: the words are those of positions that never wrap.
structure Serially (k : Nat) (s : MPMCQueueV2 T Unit × List T) (front : Nat) : Prop where
  dequeuePos : s.1.dequeuePos = ⟨BitVec.ofNat 64 front,0⟩
  enqueuePos : s.1.enqueuePos = ⟨BitVec.ofNat 64 (front + s.2.length),0⟩
  laps : Laps (BitVec.ofNat 64) (2 ^ k) (fun i => (s.1.sequence i).value) s.1.data front s.2

theorem cell_word (size : k < 64) (p : Nat) (tag : BitVec 64) : cell k ⟨BitVec.ofNat 64 p,tag⟩ = p % 2 ^ k := by
  rw [cell_eq size,MPMCQueue.cell_mod,BitVec.toNat_ofNat]
  exact Nat.mod_mod_of_dvd p (Nat.pow_dvd_pow 2 (Nat.le_of_lt size))

theorem values_update (sequence : Nat → DoubleWord) (c : Nat) (word : DoubleWord) :
    (fun i => (Function.update sequence c word i).value) = Function.update (fun i => (sequence i).value) c word.value := by
  funext i
  by_cases same : i = c
  · subst same
    rw [Function.update_self,Function.update_self]
  · rw [Function.update_of_ne same,Function.update_of_ne same]

theorem word_succ (p : Nat) : BitVec.ofNat 64 p + 1 = BitVec.ofNat 64 (p + 1) := (BitVec.ofNat_add p 1).symm

theorem word_lt (a b : Nat) : BitVec.ofNat 64 a < BitVec.ofNat 64 b ↔ a % 2 ^ 64 < b % 2 ^ 64 := by
  rw [BitVec.lt_def,BitVec.toNat_ofNat,BitVec.toNat_ofNat]

variable {s : MPMCQueueV2 T Unit × List T} {front : Nat}

-- Where a call leads, if anywhere: it agrees with the list exactly when it is
-- safe, and a safe one leaves the ring with what the list holds.
theorem Serially.leads (old : Serially k s front) (size : k < 64) (movedFrom : T → T) (initial : T) (c : QueueCall T) :
    ((code k movedFrom initial).Endless (begins s.1 c) ∧ ¬Safe k s c) ∨
    ∃ after, Leads (code k movedFrom initial) (enough 5) (begins s.1 c) after ∧
      (after.results = s.1.results ++ [(bounded (2 ^ k) s.2 c).2] ↔ Safe k s c) ∧
      (Safe k s c → ∃ front, Serially k (after,(bounded (2 ^ k) s.2 c).1) front) := by
  have laps := old.laps
  have most : 2 ^ k ≤ 2 ^ 63 := Nat.pow_le_pow_right (by decide) (by omega)
  cases c with
  | enqueue item =>
    have here : cell k s.1.enqueuePos = (front + s.2.length) % 2 ^ k := by rw [old.enqueuePos,cell_word size]
    have value : s.1.enqueuePos.value = BitVec.ofNat 64 (front + s.2.length) := by rw [old.enqueuePos]
    have next : s.1.enqueuePos.value + 1 = BitVec.ofNat 64 (front + s.2.length + 1) := by rw [value,word_succ]
    rcases Nat.lt_or_eq_of_le laps.room with room | full
    · have free : (s.1.sequence (cell k s.1.enqueuePos)).value = s.1.enqueuePos.value := by
        rw [here,value]
        exact laps.next_free room
      refine .inr ⟨_,enqueue_leads free item,?_,fun _ => ⟨front,?_⟩⟩
      · refine iff_of_true ?_ fun full => absurd full (Nat.ne_of_lt room)
        simp [enqueued,bounded,room]
      · have pushed := laps.push room item
        rw [← here] at pushed
        rw [bounded,if_pos room]
        refine ⟨old.dequeuePos,?_,?_⟩
        · simp only [enqueued,put,List.length_append,List.length_singleton,next]
          rw [old.enqueuePos,← Nat.add_assoc]
        · simp only [enqueued,put,values_update,next]
          exact pushed
    · have last : (s.1.sequence (cell k s.1.enqueuePos)).value = BitVec.ofNat 64 (front + 1) := by
        rw [here]
        exact laps.next_full full
      have behind : (s.1.sequence (cell k s.1.enqueuePos)).value < s.1.enqueuePos.value ↔
          (front + 1) % 2 ^ 64 < (front + 2 ^ k) % 2 ^ 64 := by rw [last,value,full,word_lt]
      have ahead : s.1.enqueuePos.value < (s.1.sequence (cell k s.1.enqueuePos)).value ↔
          (front + 2 ^ k) % 2 ^ 64 < (front + 1) % 2 ^ 64 := by rw [last,value,full,word_lt]
      have place : s.1.enqueuePos.value.toNat = (front + 2 ^ k) % 2 ^ 64 := by rw [value,full,BitVec.toNat_ofNat]
      rcases Nat.eq_zero_or_pos k with rfl | large
      · have free : (s.1.sequence (cell 0 s.1.enqueuePos)).value = s.1.enqueuePos.value := by
          rw [last,value,full]
          rfl
        refine .inr ⟨_,enqueue_leads free item,iff_of_false ?_ ?_,fun safe => ?_⟩
        · intro result
          simp [enqueued,bounded,full] at result
        · exact fun safe => Nat.lt_irrefl 0 (safe full).1
        · exact absurd (safe full).1 (Nat.lt_irrefl 0)
      · have two : 2 ^ 1 ≤ 2 ^ k := Nat.pow_le_pow_right (Nat.succ_pos 1) large
        by_cases safe : 2 ^ k - 1 ≤ s.1.enqueuePos.value.toNat
        · refine .inr ⟨_,enqueue_refused (behind.mpr (by omega)) item,iff_of_true ?_ fun _ => ⟨large,safe⟩,fun _ => ⟨front,?_⟩⟩
          · simp [refused,bounded,full]
          · rw [bounded,if_neg (by omega)]
            exact ⟨old.dequeuePos,old.enqueuePos,laps⟩
        · exact .inl ⟨enqueue_endless (ahead.mpr (by omega)) item,fun given => safe (given full).2⟩
  | dequeue =>
    have here : cell k s.1.dequeuePos = front % 2 ^ k := by rw [old.dequeuePos,cell_word size]
    have value : s.1.dequeuePos.value = BitVec.ofNat 64 front := by rw [old.dequeuePos]
    have next : s.1.dequeuePos.value + 1 = BitVec.ofNat 64 (front + 1) := by rw [value,word_succ]
    cases held : s.2 with
    | nil =>
      rw [held] at laps
      have waiting : (s.1.sequence (cell k s.1.dequeuePos)).value = BitVec.ofNat 64 front := by
        rw [here]
        exact laps.none
      have place : s.1.dequeuePos.value.toNat = front % 2 ^ 64 := by rw [value,BitVec.toNat_ofNat]
      by_cases safe : s.1.dequeuePos.value.toNat = 2 ^ 64 - 1
      · have ahead : s.1.dequeuePos.value + 1 < (s.1.sequence (cell k s.1.dequeuePos)).value := by
          rw [next,waiting,word_lt]
          omega
        exact .inl ⟨dequeue_endless ahead,fun given => given held safe⟩
      · have behind : (s.1.sequence (cell k s.1.dequeuePos)).value < s.1.dequeuePos.value + 1 := by
          rw [next,waiting,word_lt]
          omega
        refine .inr ⟨_,dequeue_refused behind,iff_of_true ?_ fun _ => safe,fun _ => ⟨front,old.dequeuePos,?_,laps⟩⟩
        · simp [refused,bounded]
        · have last := old.enqueuePos
          rw [held] at last
          exact last
    | cons item rest =>
      rw [held] at laps
      obtain ⟨mark,first⟩ := laps.first
      have filled : (s.1.sequence (cell k s.1.dequeuePos)).value = s.1.dequeuePos.value + 1 := by
        rw [here,next]
        exact mark
      refine .inr ⟨_,dequeue_leads filled,iff_of_true ?_ fun none => ?_,fun _ => ⟨front + 1,?_,?_,?_⟩⟩
      · simp [dequeued,bounded,here,first]
      · rw [held] at none
        cases none
      · simp only [dequeued,put,next]
        rw [old.dequeuePos]
      · have last := old.enqueuePos
        rw [held,List.length_cons] at last
        simp only [dequeued,put,bounded]
        rw [last,Nat.add_assoc front 1,Nat.add_comm 1]
      · have others : ∀ i, i ≠ front % 2 ^ k → (dequeued k movedFrom s.1).data i = s.1.data i := by
          intro i other
          rw [← here] at other
          exact Function.update_of_ne other _ _
        have popped := laps.pop others
        have lap : s.1.dequeuePos.value + BitVec.ofNat 64 (2 ^ k) = BitVec.ofNat 64 (front + 2 ^ k) := by rw [value,BitVec.ofNat_add]
        simp only [dequeued,put,values_update,bounded,lap]
        rw [← here] at popped
        exact popped

-- What the list gives, by the code.
def Correct (k : Nat) (movedFrom : T → T) (initial : T) (s : MPMCQueueV2 T Unit × List T) (label : QueueCall T × List Unit) : Prop :=
  (code k movedFrom initial).Agrees (2 ^ k) (enough 5) s label.1

theorem Serially.correct_iff (old : Serially k s front) (size : k < 64) (label : QueueCall T × List Unit) :
    Correct k movedFrom initial s label ↔ Safe k s label.1 := by
  rcases old.leads size movedFrom initial label.1 with ⟨never,missed⟩ | ⟨after,leads,exactly,_⟩
  · exact iff_of_false (Endless.disagrees never (List.replicate 5 ()) (by decide)) missed
  · exact (leads.agrees_iff (List.replicate 5 ()) (by decide)).trans exactly

theorem Serially.step (old : Serially k s front) (size : k < 64) {label : QueueCall T × List Unit} (safe : Safe k s label.1)
    (taken : ((code k movedFrom initial).serial (2 ^ k)).next s label = some after) : ∃ front, Serially k after front := by
  rcases old.leads size movedFrom initial label.1 with ⟨_,stuck⟩ | ⟨final,leads,_,kept⟩
  · exact absurd safe stuck
  · obtain ⟨found,returned,same⟩ := Option.map_eq_some_iff.mp taken
    rw [← same,leads.call returned]
    exact kept safe

theorem serially_new (k : Nat) (movedFrom : T → T) (initial : T) : Serially k ((code k movedFrom initial).new,[]) 0 :=
  ⟨rfl,rfl,Laps.start (Nat.two_pow_pos k) fun _ _ => rfl⟩

theorem correct_iff_safe (size : k < 64) (movedFrom : T → T) (initial : T) (calls : List (QueueCall T × List Unit)) :
    ((code k movedFrom initial).serial (2 ^ k)).Meets (Correct k movedFrom initial) ((code k movedFrom initial).new,[]) calls ↔
      ((code k movedFrom initial).serial (2 ^ k)).Meets (fun s label => Safe k s label.1) ((code k movedFrom initial).new,[]) calls := by
  have kept : ∀ s label after, (∃ front, Serially k s front) → Safe k s label.1 →
      ((code k movedFrom initial).serial (2 ^ k)).next s label = some after → ∃ front, Serially k after front := by
    rintro _ _ _ ⟨_,old⟩ safe taken
    exact old.step size safe taken
  have agree : ∀ s label, (∃ front, Serially k s front) → (Correct k movedFrom initial s label ↔ Safe k s label.1) := by
    rintro _ label ⟨_,old⟩
    exact old.correct_iff size label
  exact Machine.meets_iff_meets kept agree ⟨0,serially_new k movedFrom initial⟩

end MPMCQueueV2

-- Every call of one thread does what the bounded list does exactly when no
-- enqueue comes to a full queue of one cell, and no call compares numbers
-- between which the words have come round.
theorem serial_calls_fifo_iff {T : Type} {k : Nat} (size : k < 64) (movedFrom : T → T) (initial : T) :
    (∀ calls, ((MPMCQueue.code k movedFrom initial).serial (2 ^ k)).Meets (MPMCQueue.Correct k movedFrom initial)
        ((MPMCQueue.code k movedFrom initial).new,[]) calls ↔
      ((MPMCQueue.code k movedFrom initial).serial (2 ^ k)).Meets (fun s label => MPMCQueue.Safe k s label.1)
        ((MPMCQueue.code k movedFrom initial).new,[]) calls) ∧
    ∀ calls, ((MPMCQueueV2.code k movedFrom initial).serial (2 ^ k)).Meets (MPMCQueueV2.Correct k movedFrom initial)
        ((MPMCQueueV2.code k movedFrom initial).new,[]) calls ↔
      ((MPMCQueueV2.code k movedFrom initial).serial (2 ^ k)).Meets (fun s label => MPMCQueueV2.Safe k s label.1)
        ((MPMCQueueV2.code k movedFrom initial).new,[]) calls :=
  ⟨MPMCQueue.correct_iff_safe size movedFrom initial,MPMCQueueV2.correct_iff_safe size movedFrom initial⟩

-- Two cells take two items, refuse the third and give the first.
theorem serial_calls_fifo_two :
    ((MPMCQueue.code 1 id 0).serial (2 ^ 1)).Meets (MPMCQueue.Correct 1 id 0) ((MPMCQueue.code 1 id 0).new,[])
      ([.enqueue 7,.enqueue 8,.enqueue 9,.dequeue].map (·,[false,false,true,false,false,false,false])) ∧
    ((MPMCQueueV2.code 1 id 0).serial (2 ^ 1)).Meets (MPMCQueueV2.Correct 1 id 0) ((MPMCQueueV2.code 1 id 0).new,[])
      ([.enqueue 7,.enqueue 8,.enqueue 9,.dequeue].map (·,List.replicate 5 ())) :=
  ⟨((serial_calls_fifo_iff (by decide) id 0).1 _).mpr (by decide +kernel),
    ((serial_calls_fifo_iff (by decide) id 0).2 _).mpr (by decide +kernel)⟩

-- One cell takes the second item over the first, and returns true.
theorem one_cell_takes_two :
    (((MPMCQueue.code 0 id 0).serial 1).run ((MPMCQueue.code 0 id 0).new,[])
        ([.enqueue 7,.enqueue 8].map (·,List.replicate 5 false))).map (·.1.outcomes.map MPMCQueue.result) =
      some [.enqueue true,.enqueue true] ∧
    (((MPMCQueueV2.code 0 id 0).serial 1).run ((MPMCQueueV2.code 0 id 0).new,[])
        ([.enqueue 7,.enqueue 8].map (·,List.replicate 5 ()))).map (·.1.results) =
      some [.enqueue true,.enqueue true] ∧
    ¬((MPMCQueue.code 0 id 0).serial (2 ^ 0)).Meets (MPMCQueue.Correct 0 id 0) ((MPMCQueue.code 0 id 0).new,[])
      ([.enqueue 7,.enqueue 8].map (·,List.replicate 5 false)) ∧
    ¬((MPMCQueueV2.code 0 id 0).serial (2 ^ 0)).Meets (MPMCQueueV2.Correct 0 id 0) ((MPMCQueueV2.code 0 id 0).new,[])
      ([.enqueue 7,.enqueue 8].map (·,List.replicate 5 ())) := by
  refine ⟨rfl,rfl,?_,?_⟩
  · rw [MPMCQueue.correct_iff_safe (by decide)]
    decide +kernel
  · rw [MPMCQueueV2.correct_iff_safe (by decide)]
    decide +kernel

end NewMuduo
