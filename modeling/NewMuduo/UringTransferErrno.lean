import NewMuduo.UringTransfer

namespace NewMuduo.UringTransfer
variable {t s : UringTransfer} {call : Call} {c first second : Completion} {one two : List Completion} {results : List Int}

-- All completions of a connection in turn. A coroutine that has returned takes
-- no more of them.
def resuming (call : Call) : Machine UringTransfer Completion where
  start _ := True
  next t c := some (t.resume call c)

def played (call : Call) (data : Nat) (len : Int) (completions : List Completion) : UringTransfer :=
  completions.foldl (fun t c => t.resume call c) (begin call data len)

-- A negative completion is retried exactly when its own result says so, and
-- closes the connection otherwise.
def Decided (call : Call) (t : UringTransfer) (c : Completion) : Prop :=
  ∀ l, t.stage = .suspended l → c.res < 0 → t.resume call c = if retries (-c.res) then t.loop l else t.close c.res

-- errno says what the result does.
def Told (t : UringTransfer) (c : Completion) : Prop := ∀ l, t.stage = .suspended l → c.res < 0 → retries c.errno = retries (-c.res)

def Unfailing (t : UringTransfer) (c : Completion) : Prop := ∀ l, t.stage = .suspended l → 0 ≤ c.res

instance (stage : Stage) (promise : Prop) [Decidable promise] : Decidable (∀ l, stage = .suspended l → promise) :=
  match stage with
  | .suspended l => decidable_of_iff promise ⟨fun holds _ _ => holds,fun all => all l rfl⟩
  | .returned _ | .fellOff => .isTrue fun _ absent => (by cases absent)

instance (t : UringTransfer) (c : Completion) : Decidable (Told t c) :=
  inferInstanceAs (Decidable (∀ l, t.stage = .suspended l → c.res < 0 → retries c.errno = retries (-c.res)))

theorem resume_negative (waits : t.stage = .suspended l) (negative : c.res < 0) (call : Call) :
    t.resume call c = if retries c.errno then t.loop l else t.close c.res := by
  have none : ¬0 < c.res := by omega
  have some : c.res ≠ 0 := by omega
  unfold resume
  rw [waits]
  cases call with
  | read =>
    dsimp only [read]
    rw [if_neg none,if_neg some]
  | send =>
    dsimp only [send]
    rw [if_neg none,if_neg some]

theorem loop_ne_close (t : UringTransfer) (l : Locals) (result : Int) : t.loop l ≠ t.close result := by
  intro same
  have stage : (t.loop l).stage = .returned result := congrArg UringTransfer.stage same
  unfold loop at stage
  split at stage <;> cases stage

theorem decided_iff_told (call : Call) : Decided call t c ↔ Told t c := by
  constructor
  · intro decided l waits negative
    have same := decided l waits negative
    rw [resume_negative waits negative] at same
    have apart := loop_ne_close t l c.res
    cases errno : retries c.errno <;> cases res : retries (-c.res)
    · rfl
    · rw [errno,res] at same
      exact absurd same.symm apart
    · rw [errno,res] at same
      exact absurd same apart
    · rfl
  · intro told l waits negative
    rw [resume_negative waits negative,told l waits negative]

-- errno matters for negative completions only.
theorem resume_same (call : Call) (same : first.res = second.res)
    (alike : ∀ l, t.stage = .suspended l → first.res < 0 → retries first.errno = retries second.errno) :
    t.resume call first = t.resume call second := by
  cases waits : t.stage with
  | returned _ | fellOff =>
    unfold resume
    rw [waits]
  | suspended l =>
    by_cases negative : first.res < 0
    · have errno := alike l waits negative
      rw [resume_negative waits negative,resume_negative waits (same ▸ negative),errno,same]
    · unfold resume
      rw [waits,← same]
      have some : ¬0 < first.res → first.res = 0 := by omega
      cases call with
      | read =>
        dsimp only [read]
        split
        · rfl
        · rename_i none
          rw [if_pos (some none),if_pos (some none)]
      | send =>
        dsimp only [send]
        split
        · rfl
        · rename_i none
          rw [if_pos (some none),if_pos (some none)]

theorem played_same (same : one.map (·.res) = two.map (·.res)) (left : (resuming call).Meets Told t one)
    (right : (resuming call).Meets Told t two) :
    one.foldl (fun t c => t.resume call c) t = two.foldl (fun t c => t.resume call c) t := by
  induction one generalizing t two with
  | nil =>
    cases two with
    | nil => rfl
    | cons _ _ => cases same
  | cons first rest ih =>
    cases two with
    | nil => cases same
    | cons second others =>
      rw [List.map_cons,List.map_cons,List.cons.injEq] at same
      obtain ⟨here,later⟩ := same
      have equal : t.resume call first = t.resume call second := by
        refine resume_same call here fun l waits negative => ?_
        rw [left.1 l waits negative,right.1 l waits (here ▸ negative),here]
      have next := right.2 _ rfl
      rw [← equal] at next
      rw [List.foldl_cons,List.foldl_cons,← equal]
      exact ih later (left.2 _ rfl) next

theorem meets_decided_iff (call : Call) (t : UringTransfer) (completions : List Completion) :
    (resuming call).Meets (Decided call) t completions ↔ (resuming call).Meets Told t completions := by
  have anything : ∀ s (c : Completion) after, True → Told s c → (resuming call).next s c = some after → True :=
    fun _ _ _ _ _ _ => trivial
  exact Machine.meets_iff_meets anything (fun _ _ _ => decided_iff_told call) trivial

-- The completions with one errno for all of them.
def stamped (results : List Int) (errno : Int) : List Completion := results.map (⟨·,errno⟩)

theorem told_of_unfailing (errno : Int) (met : (resuming call).Meets Unfailing t (stamped results 0)) :
    (resuming call).Meets Told t (stamped results errno) := by
  induction results generalizing t with
  | nil => trivial
  | cons res rest ih =>
    have positive : ∀ l, t.stage = .suspended l → ¬res < 0 := fun l waits => Int.not_lt.mpr (met.1 l waits)
    have same : t.resume call ⟨res,errno⟩ = t.resume call ⟨res,0⟩ :=
      resume_same call rfl fun l waits negative => absurd negative (positive l waits)
    refine ⟨fun l waits negative => absurd negative (positive l waits),fun after taken => ?_⟩
    cases Option.some.inj taken
    dsimp only
    rw [same]
    exact ih (met.2 _ rfl)

-- What is told by 0 and by EAGAIN is not a failure.
theorem unfailing_of_told (calm : (resuming call).Meets Told t (stamped results 0))
    (again : (resuming call).Meets Told t (stamped results EAGAIN)) : (resuming call).Meets Unfailing t (stamped results 0) := by
  induction results generalizing t with
  | nil => trivial
  | cons res rest ih =>
    have positive : ∀ l, t.stage = .suspended l → ¬res < 0 := by
      intro l waits negative
      have one : retries 0 = retries (-res) := calm.1 l waits negative
      have two : retries EAGAIN = retries (-res) := again.1 l waits negative
      exact absurd (one.trans two.symm) (by decide)
    have same : t.resume call ⟨res,EAGAIN⟩ = t.resume call ⟨res,0⟩ :=
      resume_same call rfl fun l waits negative => absurd negative (positive l waits)
    refine ⟨fun l waits => Int.not_lt.mp (positive l waits),fun after taken => ?_⟩
    cases Option.some.inj taken
    have tail := again.2 _ rfl
    dsimp only at tail
    rw [same] at tail
    exact ih (calm.2 _ rfl) tail

-- Two runs on the same results end alike and decide by the results.
def Alike (call : Call) (data : Nat) (len : Int) (one two : List Completion) : Prop :=
  played call data len one = played call data len two ∧ (resuming call).Meets (Decided call) (begin call data len) one ∧
    (resuming call).Meets (Decided call) (begin call data len) two

theorem alike_iff_told (call : Call) (data : Nat) (len : Int) :
    (∀ one two : List Completion, one.map (·.res) = two.map (·.res) → (Alike call data len one two ↔
      (resuming call).Meets Told (begin call data len) one ∧ (resuming call).Meets Told (begin call data len) two)) ∧
    ∀ results, (∀ errno other, Alike call data len (stamped results errno) (stamped results other)) ↔
      (resuming call).Meets Unfailing (begin call data len) (stamped results 0) := by
  have pairs : ∀ one two : List Completion, one.map (·.res) = two.map (·.res) → (Alike call data len one two ↔
      (resuming call).Meets Told (begin call data len) one ∧ (resuming call).Meets Told (begin call data len) two) := by
    intro one two same
    unfold Alike
    rw [meets_decided_iff,meets_decided_iff]
    exact ⟨And.right,fun both => ⟨played_same same both.1 both.2,both⟩⟩
  have equal : ∀ results errno other, (stamped results errno).map (·.res) = (stamped results other).map (·.res) := by
    intro results errno other
    unfold stamped
    rw [List.map_map,List.map_map]
    rfl
  refine ⟨pairs,fun results => ⟨fun alike => ?_,fun met errno other => ?_⟩⟩
  · obtain ⟨calm,again⟩ := (pairs _ _ (equal results 0 EAGAIN)).mp (alike 0 EAGAIN)
    exact unfailing_of_told calm again
  · exact (pairs _ _ (equal results errno other)).mpr ⟨told_of_unfailing errno met,told_of_unfailing other met⟩

-- -EAGAIN with EAGAIN or EINTR in errno, then the four bytes.
theorem retried_alike : Alike .read 4096 4 [⟨-11,11⟩,⟨4,0⟩] [⟨-11,4⟩,⟨4,9⟩] :=
  ((alike_iff_told .read 4096 4).1 _ _ rfl).mpr ⟨by decide,by decide⟩

-- A reset by the peer closes the connection or is retried, as errno happens to be.
theorem reset_retried : (played .send 4096 1 [⟨-104,0⟩]).stage = .returned (-104) ∧ (played .send 4096 1 [⟨-104,0⟩]).closes = 1 ∧
    (played .send 4096 1 [⟨-104,11⟩]).submissions = [⟨4096,1⟩,⟨4096,1⟩] ∧ (played .send 4096 1 [⟨-104,11⟩]).closes = 0 ∧
    ¬Alike .send 4096 1 [⟨-104,0⟩] [⟨-104,11⟩] := by
  refine ⟨by decide,by decide,by decide,by decide,fun alike => ?_⟩
  exact absurd alike.1 (by decide)

end NewMuduo.UringTransfer
