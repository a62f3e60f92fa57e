import NewMuduo.UringTransfer
import NewMuduo.Extents

namespace NewMuduo.UringTransfer
open Extent
open IntType (int)
variable {t after : UringTransfer} {call : Call} {c : Completion} {done completions : List Completion} {data len : Nat}

-- A completion transfers at most what its request asks for.
def admits (t : UringTransfer) (c : Completion) : Bool :=
  match t.stage with
  | .suspended l => c.res ≤ nbytes l.len
  | _ => false

def machine (call : Call) (data len : Nat) : Machine UringTransfer Completion :=
  .guarded (· = begin call data len) (fun t c => t.admits c = true) fun t c => t.resume call c

-- The bytes that these completions have transferred.
def moved (completions : List Completion) : Nat := (completions.map (·.res.toNat)).sum

-- The part of the buffer that each completion fills or empties.
def pieces (t : UringTransfer) (completions : List Completion) : List Extent :=
  t.submissions.zipWith (fun submission c => ⟨submission.start,c.res.toNat⟩) completions

def Stage.requests : Stage → Nat
  | .suspended _ => 1
  | _ => 0

-- How a coroutine stands that has n bytes.
def Stage.Right (data len n : Nat) : Stage → Prop
  | .suspended l => l = .after data len n ∧ n < len
  | .returned result => result = len ∧ n = len ∨ result ≤ 0 ∧ n < len
  | .fellOff => False

-- Each request is for what the completions before it have left.
def Asked (data len : Nat) (done : List Completion) (submissions : List Submission) : Prop :=
  ∀ (n : Nat) (submission : Submission), submissions[n]? = some submission → submission = .rest data len (moved (done.take n))

structure Progress (data len : Nat) (done : List Completion) (t : UringTransfer) : Prop where
  asked : Asked data len done t.submissions
  count : t.submissions.length = done.length + t.stage.requests
  stage : t.stage.Right data len (moved done)

theorem moved_snoc (done : List Completion) (c : Completion) : moved (done ++ [c]) = moved done + c.res.toNat := by
  unfold moved
  rw [List.map_append,List.sum_append]
  rfl

theorem Asked.snoc {submissions : List Submission} (old : Asked data len done submissions) (few : submissions.length ≤ done.length + 1)
    (c : Completion) : Asked data len (done ++ [c]) submissions := by
  intro n submission found
  have inside : n < submissions.length := (List.getElem?_eq_some_iff.mp found).1
  rw [old n submission found,List.take_append_of_le_length (by omega)]

theorem Asked.append {submissions : List Submission} (old : Asked data len done submissions) (count : submissions.length = done.length) :
    Asked data len done (submissions ++ [.rest data len (moved done)]) := by
  intro n submission found
  by_cases inside : n < submissions.length
  · rw [List.getElem?_append_left inside] at found
    exact old n submission found
  · rw [List.getElem?_append_right (Nat.le_of_not_lt inside),List.getElem?_singleton] at found
    split at found
    · rename_i last
      have whole : done.take n = done := List.take_of_length_le (by omega)
      rw [whole]
      exact (Option.some.inj found).symm
    · cases found

theorem admits_rest (fits : (len : Int) ≤ int.highest) (waits : t.stage = .suspended (.after data len n)) (more : n < len) :
    t.admits c = true ↔ c.res ≤ len - n := by
  have whole : nbytes (len - n) = len - n := nbytes_eq (by omega) (by omega)
  unfold admits
  rw [waits]
  dsimp only [Locals.after]
  rw [whole]
  exact decide_eq_true_iff

-- The loop asks for the rest.
theorem Progress.loop (fits : (len : Int) ≤ int.highest) (asked : Asked data len done t.submissions)
    (count : t.submissions.length = done.length) (more : moved done < len) : Progress data len done (t.loop (.after data len (moved done))) := by
  rw [loop_after fits more]
  refine ⟨asked.append count,?_,rfl,more⟩
  dsimp only [Stage.requests]
  rw [List.length_append,count]
  rfl

theorem Progress.started (positive : 1 ≤ len) (fits : (len : Int) ≤ int.highest) (call : Call) (data : Nat) :
    Progress data len [] (begin call data len) := by
  rw [begin_after call fits]
  exact .loop fits (fun n submission absent => (by cases absent)) rfl positive

theorem Progress.step (old : Progress data len done t) (fits : (len : Int) ≤ int.highest) (admitted : t.admits c = true) :
    Progress data len (done ++ [c]) (t.resume call c) := by
  obtain ⟨asked,count,stage⟩ := old
  cases waits : t.stage with
  | returned _ | fellOff =>
    unfold admits at admitted
    rw [waits] at admitted
    cases admitted
  | suspended l =>
    rw [waits] at count stage
    obtain ⟨rfl,more⟩ := stage
    have most : c.res ≤ len - moved done := (admits_rest fits waits more).mp admitted
    have longer : t.submissions.length = (done ++ [c]).length := by
      rw [count,List.length_append]
      rfl
    have still := asked.snoc (Nat.le_of_eq count) c
    have turn : Turn t data len (moved done) c (t.resume call c) := resume_turn fits waits more most
    generalize t.resume call c = next at turn ⊢
    cases turn with
    | whole all => exact ⟨still,longer,.inl ⟨rfl,(moved_snoc done c).trans all⟩⟩
    | again part =>
      rw [← moved_snoc] at part ⊢
      exact .loop fits still longer part
    | closed result none negative =>
      refine ⟨still,longer,.inr ⟨negative,?_⟩⟩
      rw [moved_snoc]
      omega

theorem Progress.run (old : Progress data len done t) (fits : (len : Int) ≤ int.highest)
    (ran : (machine call data len).run t completions = some after) : Progress data len (done ++ completions) after := by
  induction completions generalizing t done with
  | nil =>
    cases Option.some.inj ran
    rw [List.append_nil]
    exact old
  | cons c rest ih =>
    obtain ⟨middle,taken,ran⟩ := Machine.run_cons_parts ran
    obtain ⟨admitted,rfl⟩ := Machine.guarded_parts.mp taken
    have tail := ih (old.step fits admitted) ran
    rw [List.append_assoc] at tail
    exact tail

-- The pieces lie one behind the other from data on.
theorem Progress.pieces (old : Progress data len done t) : t.pieces done = stretches data (done.map (·.res.toNat)) := by
  refine List.ext_getElem? fun n => ?_
  unfold UringTransfer.pieces
  rw [List.getElem?_zipWith,stretches_at,List.getElem?_map]
  cases found : done[n]? with
  | none =>
    cases t.submissions[n]? <;> rfl
  | some c =>
    have inside : n < t.submissions.length := by
      have below := (List.getElem?_eq_some_iff.mp found).1
      have count := old.count
      omega
    have asked := old.asked n _ (List.getElem?_eq_getElem inside)
    rw [List.getElem?_eq_getElem inside,asked,← List.map_take]
    rfl

theorem Progress.bounded (old : Progress data len done t) : moved done ≤ len := by
  have stage := old.stage
  unfold Stage.Right at stage
  split at stage
  · omega
  · omega
  · exact stage.elim

-- The request of a coroutine that waits is for the rest.
theorem Progress.last (old : Progress data len done t) (waits : t.stage = .suspended l) :
    t.submissions.getLast? = some (.rest data len (moved done)) := by
  have count := old.count
  rw [waits] at count
  have longer : t.submissions.length = done.length + 1 := count
  have inside : done.length < t.submissions.length := by omega
  have asked := old.asked done.length _ (List.getElem?_eq_getElem inside)
  rw [List.take_length] at asked
  rw [List.getLast?_eq_getElem?,longer,Nat.add_sub_cancel,List.getElem?_eq_getElem inside,asked]

theorem transfers_whole_in_order {call : Call} {data len : Nat} {completions : List Completion} {t : UringTransfer} (positive : 1 ≤ len)
    (fits : len ≤ 2 ^ 31 - 1) (ran : (machine call data len).run (begin call data len) completions = some t) :
    (∀ (n : Nat) (submission : Submission), t.submissions[n]? = some submission →
      submission = ⟨data + moved (completions.take n),len - moved (completions.take n)⟩) ∧
    t.submissions.length = completions.length + t.stage.requests ∧
    ((t.pieces completions).IsChain fun first second => first.base + first.size = second.base) ∧
    ((t.pieces completions).Pairwise fun first second => first.base + first.size ≤ second.base) ∧
    covered (t.pieces completions) = bytes ⟨data,moved completions⟩ ∧ moved completions ≤ len ∧
    (t.stage = .returned len ↔ moved completions = len) ∧
    ((∃ result, t.stage = .returned result) ∨
      ∃ last, t.submissions.getLast? = some last ∧ 0 < last.nbytes ∧ ∀ c : Completion, c.res ≤ last.nbytes → t.admits c = true) := by
  have short : (len : Int) ≤ int.highest := by
    have bound : int.highest = 2 ^ 31 - 1 := rfl
    omega
  have old : Progress data len completions t := (Progress.started positive short call data).run short ran
  have bounded := old.bounded
  refine ⟨old.asked,old.count,?_,?_,?_,bounded,?_,?_⟩
  · rw [old.pieces]
    exact stretches_adjacent _ _
  · rw [old.pieces]
    exact stretches_ordered _ _
  · rw [old.pieces]
    exact covered_stretches _ _
  · have stage := old.stage
    cases here : t.stage with
    | suspended l =>
      rw [here] at stage
      exact iff_of_false (fun absent => by cases absent) (Nat.ne_of_lt stage.2)
    | returned result =>
      rw [here] at stage
      rcases stage with ⟨rfl,all⟩ | ⟨none,part⟩
      · exact iff_of_true rfl all
      · refine iff_of_false (fun same => ?_) (Nat.ne_of_lt part)
        cases same
        omega
    | fellOff =>
      rw [here] at stage
      exact stage.elim
  · have stage := old.stage
    cases here : t.stage with
    | suspended l =>
      rw [here] at stage
      obtain ⟨rfl,more⟩ := stage
      refine .inr ⟨_,old.last here,?_,fun c most => (admits_rest short here more).mpr most⟩
      dsimp only [Submission.rest]
      omega
    | returned result => exact .inl ⟨result,rfl⟩
    | fellOff =>
      rw [here] at stage
      exact stage.elim

-- Three bytes, a retry, and the other seven.
def threeThenSeven : List Completion := [⟨3,0⟩,⟨-11,11⟩,⟨7,0⟩]

theorem three_then_seven_whole : ∃ t, (machine .send 4096 10).run (begin .send 4096 (10 : Nat)) threeThenSeven = some t ∧
    t.stage = .returned 10 ∧ covered (t.pieces threeThenSeven) = bytes ⟨4096,10⟩ := by
  have found : ((machine .send 4096 10).run (begin .send 4096 (10 : Nat)) threeThenSeven).isSome = true := by decide
  obtain ⟨t,ran⟩ := Option.isSome_iff_exists.mp found
  obtain ⟨_,_,_,_,whole,_,returned,_⟩ := transfers_whole_in_order (by decide) (by decide) ran
  exact ⟨t,ran,returned.mpr rfl,whole⟩

end NewMuduo.UringTransfer
