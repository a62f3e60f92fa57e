import NewMuduo.TimerArming
import NewMuduo.TimerMemory

namespace NewMuduo

theorem Entry.lt_sentinel {e : Entry} {now : Int} (small : e.timer < UINTPTR_MAX) : e < ⟨now,UINTPTR_MAX⟩ ↔ e.expiration ≤ now := by
  change toLex (e.expiration,e.timer) < toLex (now,UINTPTR_MAX) ↔ _
  rw [Prod.Lex.toLex_lt_toLex]
  constructor
  · intro before
    rcases before with earlier | ⟨same,_⟩
    · exact le_of_lt earlier
    · exact le_of_eq same
  · intro due
    rcases lt_or_eq_of_le due with earlier | same
    · exact .inl earlier
    · exact .inr ⟨same,small⟩

-- The deadline of the k-th run of a Timer, from 0, as it was made.
def Timer.deadline (t : Timer) (k : Nat) : Int := t.expiration + k * t.interval

theorem Timer.deadline_succ (t : Timer) (k : Nat) : t.deadline (k + 1) = t.deadline k + t.interval := by
  unfold deadline
  rw [Nat.cast_succ,Int.add_mul,Int.one_mul,Int.add_assoc]

namespace TimerQueue

theorem add_parts (s : TimerQueue) (timer : Nat) (t : Timer) (clock : Int) :
    (s.apply (.add timer t clock)).batch = s.batch ∧ (s.apply (.add timer t clock)).used = s.used ++ [t.sequence] ∧
      (s.apply (.add timer t clock)).heap = Function.update s.heap timer (some t) := by
  obtain ⟨timerfd,added⟩ := add_some s timer t clock
  rw [added]
  exact ⟨rfl,rfl,rfl⟩

-- A callback's run: whose, for which expiration, and the now of its handleRead.
structure Turn where
  sequence : Nat
  expiration : Int
  now : Int
  deriving DecidableEq, Repr

-- The queue with the now of its last handleRead, the Timers as they were made
-- and the runs of their callbacks. It adds nothing to the code.
structure Schedule where
  queue : TimerQueue
  now : Int
  made : List Timer
  turns : List Turn

namespace Schedule

def clock (s : Schedule) : Label → Int
  | .handleRead now => now
  | _ => s.now

def makes : Label → List Timer
  | .add _ t _ => [t]
  | _ => []

def turn (s : Schedule) : Label → List Turn
  | .run =>
    match s.queue.batch with
    | some ⟨_,cur :: _,_⟩ => (s.queue.heap cur.timer).elim [] fun t => [⟨t.sequence,t.expiration,s.now⟩]
    | _ => []
  | _ => []

def apply (s : Schedule) (label : Label) : Schedule :=
  ⟨s.queue.apply label,s.clock label,s.made ++ makes label,s.turns ++ s.turn label⟩

def new : Schedule := ⟨.new,0,[],[]⟩

def machine : Machine Schedule Label := .guarded (· = new) (fun s label => s.queue.allowed label = true) apply

def turnsOf (s : Schedule) (q : Nat) : List Turn := s.turns.filter (·.sequence = q)

variable {s after : Schedule} {label : Label} {e : Entry} {t u : Timer} {timer q : Nat} {now : Int}

-- u is the Timer made as t after its first runs; it has one deadline behind it
-- more while it is in the batch and has run.
structure Follows (s : Schedule) (timer : Nat) (u t : Timer) : Prop where
  made : t ∈ s.made
  sequence : u.sequence = t.sequence
  repeats : u.repeats = t.repeats
  interval : u.interval = t.interval
  waits : (⟨u.expiration,timer⟩ : Entry) ∉ s.queue.done → u.expiration = t.deadline (s.turnsOf t.sequence).length
  ran : (⟨u.expiration,timer⟩ : Entry) ∈ s.queue.done → u.expiration + t.interval = t.deadline (s.turnsOf t.sequence).length

structure Kept (s : Schedule) : Prop where
  queue : s.queue.Accounted
  used : s.made.map (·.sequence) = s.queue.used
  once : (s.made.map (·.sequence)).Nodup
  due : ∀ e ∈ s.queue.expired, e.expiration ≤ s.now
  known : ∀ turn ∈ s.turns, turn.sequence ∈ s.queue.used
  on_time : ∀ turn ∈ s.turns, turn.expiration ≤ turn.now
  regular : ∀ t ∈ s.made, ∀ k turn, (s.turnsOf t.sequence)[k]? = some turn → turn.expiration = t.deadline k
  follows : ∀ timer u, s.queue.heap timer = some u → ∃ t, Follows s timer u t

theorem Follows.frame (old : Follows s timer u t) (made : t ∈ after.made)
    (done : (⟨u.expiration,timer⟩ : Entry) ∈ after.queue.done ↔ ⟨u.expiration,timer⟩ ∈ s.queue.done)
    (turns : after.turnsOf t.sequence = s.turnsOf t.sequence) : Follows after timer u t := by
  refine ⟨made,old.sequence,old.repeats,old.interval,fun waiting => ?_,fun ran => ?_⟩
  · rw [turns]
    exact old.waits fun before => waiting (done.mpr before)
  · rw [turns]
    exact old.ran (done.mp ran)

-- The turn of a Timer of the batch is the next one of those it has had.
theorem Kept.turn_some (old : Kept s) (able : s.queue.allowed .run = true) : ∃ done cur rest running u t,
    s.queue.batch = some ⟨done,cur :: rest,running⟩ ∧ s.queue.heap cur.timer = some u ∧ u.expiration = cur.expiration ∧
      Follows s cur.timer u t ∧ cur.expiration = t.deadline (s.turnsOf t.sequence).length ∧ cur.expiration ≤ s.now ∧
      s.apply .run = {s with
        queue := {s.queue with runs := s.queue.runs ++ [u.sequence],batch := some ⟨done ++ [cur],rest,true⟩}
        made := s.made ++ []
        turns := s.turns ++ [⟨t.sequence,cur.expiration,s.now⟩]} := by
  obtain ⟨done,cur,rest,running,u,here,found,ran⟩ := old.queue.run_some able
  obtain ⟨t,follows⟩ := old.follows cur.timer u found
  have inside : cur ∈ s.queue.expired := by
    unfold expired
    rw [here]
    exact List.mem_append_right _ List.mem_cons_self
  have entry := old.queue.tracked.sound.unique (.inr inside) found
  have expiration : u.expiration = cur.expiration := congrArg Entry.expiration entry
  have waiting : (⟨u.expiration,cur.timer⟩ : Entry) ∉ s.queue.done := by
    rw [entry]
    have once := old.queue.tracked.sound.once
    unfold expired Batch.expired at once
    unfold TimerQueue.done
    rw [here] at once ⊢
    exact fun before => (List.nodup_append.mp once).2.2 cur before cur List.mem_cons_self rfl
  refine ⟨done,cur,rest,running,u,t,here,found,expiration,follows,expiration ▸ follows.waits waiting,old.due cur inside,?_⟩
  have turn : s.turn .run = [⟨t.sequence,cur.expiration,s.now⟩] := by
    unfold Schedule.turn
    simp only [here]
    rw [found,← follows.sequence,← expiration]
    rfl
  unfold apply
  rw [ran,turn]
  rfl

namespace Kept

theorem started : Kept new := by
  have nothing : ∀ {P : Timer → Prop}, ∀ t ∈ new.made, P t := fun _ absent => (by cases absent)
  refine ⟨.started,rfl,.nil,fun _ absent => (by cases absent),fun _ absent => (by cases absent),fun _ absent => (by cases absent),
    nothing,fun _ _ absent => (by cases absent)⟩

-- The Timers there are were there before, as far on as they were.
theorem quiet (old : Kept s) (queue : after.queue.Accounted) (made : after.made = s.made) (turns : after.turns = s.turns)
    (used : after.queue.used = s.queue.used) (due : ∀ e ∈ after.queue.expired, e.expiration ≤ after.now)
    (done : after.queue.done = s.queue.done)
    (heap : ∀ timer u, after.queue.heap timer = some u → s.queue.heap timer = some u) : Kept after := by
  have same : ∀ q, after.turnsOf q = s.turnsOf q := fun q => congrArg (List.filter _) turns
  refine ⟨queue,?_,made ▸ old.once,due,?_,turns ▸ old.on_time,?_,fun timer u found => ?_⟩
  · rw [made,used]
    exact old.used
  · rw [turns,used]
    exact old.known
  · intro t member k turn given
    rw [same] at given
    exact old.regular t (made ▸ member) k turn given
  · obtain ⟨t,follows⟩ := old.follows timer u (heap timer u found)
    exact ⟨t,follows.frame (made ▸ follows.made) (by rw [done]) (same _)⟩

-- A new Timer has had no turn.
theorem add (old : Kept s) {clock : Int} (able : s.queue.allowed (.add timer t clock) = true) : Kept (s.apply (.add timer t clock)) := by
  have queue := old.queue.step _ able
  simp only [allowed,Bool.and_eq_true,decide_eq_true_iff,Option.isNone_iff_eq_none] at able
  obtain ⟨⟨⟨_,vacant⟩,fresh⟩,_⟩ := able
  obtain ⟨batch,used,heap⟩ := add_parts s.queue timer t clock
  have turns : (s.apply (.add timer t clock)).turns = s.turns := List.append_nil _
  have same : ∀ q, (s.apply (.add timer t clock)).turnsOf q = s.turnsOf q := fun q => congrArg (List.filter _) turns
  have unmade : t.sequence ∉ s.made.map (·.sequence) := old.used ▸ fresh
  have none : s.turnsOf t.sequence = [] := by
    refine List.filter_eq_nil_iff.mpr fun turn member equal => fresh ?_
    rw [← of_decide_eq_true equal]
    exact old.known turn member
  have done : (s.queue.apply (.add timer t clock)).done = s.queue.done := by
    unfold TimerQueue.done
    rw [batch]
  refine ⟨queue,?_,?_,?_,?_,turns ▸ old.on_time,?_,fun other u found => ?_⟩
  · change (s.made ++ [t]).map _ = (s.queue.apply _).used
    rw [used,← old.used,List.map_append]
    rfl
  · change ((s.made ++ [t]).map _).Nodup
    rw [List.map_append]
    refine List.nodup_append.mpr ⟨old.once,List.nodup_singleton _,fun q before other here equal => unmade ?_⟩
    rw [equal,List.mem_singleton.mp here] at before
    exact before
  · change ∀ e ∈ (s.queue.apply _).expired,_
    unfold TimerQueue.expired
    rw [batch]
    exact old.due
  · rw [turns]
    intro turn member
    change _ ∈ (s.queue.apply _).used
    rw [used]
    exact List.mem_append_left _ (old.known turn member)
  · intro v member k turn given
    rw [same] at given
    rcases List.mem_append.mp member with before | last
    · exact old.regular v before k turn given
    · rw [List.mem_singleton.mp last,none] at given
      cases given
  · change (s.queue.apply _).heap other = some u at found
    rw [heap] at found
    rcases Ledger.update_some found with ⟨rfl,rfl⟩ | ⟨_,there⟩
    · refine ⟨u,List.mem_append_right _ List.mem_cons_self,rfl,rfl,rfl,fun _ => ?_,fun ran => ?_⟩
      · rw [same,none]
        simp [Timer.deadline]
      · exfalso
        change _ ∈ (s.queue.apply _).done at ran
        rw [done] at ran
        obtain ⟨_,live,_⟩ := old.queue.tracked.sound.live (.inr (Accounted.inside ran))
        cases vacant.symm.trans live
    · obtain ⟨v,follows⟩ := old.follows other u there
      exact ⟨v,follows.frame (List.mem_append_left _ follows.made) (by rw [← done]; rfl) (same _)⟩

theorem run (old : Kept s) (able : s.queue.allowed .run = true) : Kept (s.apply .run) := by
  have queue := old.queue.step _ able
  obtain ⟨done,cur,rest,running,u,t,here,found,expiration,follows,deadline,due,after⟩ := old.turn_some able
  have same : ∀ q, q ≠ t.sequence → (s.apply .run).turnsOf q = s.turnsOf q := by
    intro q other
    rw [after]
    unfold turnsOf
    rw [List.filter_append,List.filter_cons_of_neg (by simpa using Ne.symm other),List.filter_nil,List.append_nil]
  have one : (s.apply .run).turnsOf t.sequence = s.turnsOf t.sequence ++ [⟨t.sequence,cur.expiration,s.now⟩] := by
    rw [after]
    unfold turnsOf
    rw [List.filter_append,List.filter_cons_of_pos (by simp),List.filter_nil]
  have made : (s.apply .run).made = s.made := List.append_nil _
  have sequence : t.sequence ∈ s.queue.used := old.used ▸ List.mem_map_of_mem follows.made
  have whole : (s.apply .run).queue.expired = s.queue.expired := by
    rw [after]
    unfold TimerQueue.expired Batch.expired
    rw [here]
    simp
  have before : s.queue.done = done := by
    unfold TimerQueue.done
    rw [here]
    rfl
  have ran : (s.apply .run).queue.done = s.queue.done ++ [cur] := by
    rw [before,after]
    rfl
  refine ⟨queue,?_,made ▸ old.once,whole ▸ old.due,?_,?_,?_,fun timer v there => ?_⟩
  · rw [made,after]
    exact old.used
  · rw [after]
    intro turn member
    rcases List.mem_append.mp member with before | last
    · exact old.known turn before
    · rw [List.mem_singleton.mp last]
      exact sequence
  · rw [after]
    intro turn member
    rcases List.mem_append.mp member with before | last
    · exact old.on_time turn before
    · rw [List.mem_singleton.mp last]
      exact due
  · intro v member k turn given
    rw [made] at member
    by_cases equal : v.sequence = t.sequence
    · have same_timer : v = t := List.inj_on_of_nodup_map old.once member follows.made equal
      rw [same_timer,one] at given
      rw [same_timer]
      rcases Nat.lt_or_ge k (s.turnsOf t.sequence).length with earlier | last
      · rw [List.getElem?_append_left earlier] at given
        exact old.regular t follows.made k turn given
      · rw [List.getElem?_append_right last] at given
        obtain ⟨below,_⟩ := List.getElem?_eq_some_iff.mp given
        have zero : k = (s.turnsOf t.sequence).length := by
          rw [List.length_singleton] at below
          omega
        rw [zero,Nat.sub_self] at given
        cases given
        rw [zero]
        exact deadline
    · rw [same _ equal] at given
      exact old.regular v member k turn given
  · rw [after] at there
    change s.queue.heap timer = some v at there
    by_cases equal : timer = cur.timer
    · rw [equal] at there ⊢
      cases found.symm.trans there
      have entry : (⟨u.expiration,cur.timer⟩ : Entry) = cur := entry_eq expiration rfl
      refine ⟨t,made ▸ follows.made,follows.sequence,follows.repeats,follows.interval,fun waiting => ?_,fun _ => ?_⟩
      · rw [ran,entry] at waiting
        exact absurd (List.mem_append_right _ List.mem_cons_self) waiting
      · rw [one,List.length_append,List.length_singleton,Timer.deadline_succ,expiration,deadline]
    · obtain ⟨w,kept⟩ := old.follows timer v there
      have apart : w.sequence ≠ t.sequence := by
        intro shared
        refine equal (old.queue.tracked.ledger.alone _ _ v u there found ?_)
        rw [kept.sequence,shared,follows.sequence]
      refine ⟨w,kept.frame (made ▸ kept.made) ?_ (same _ apart)⟩
      rw [ran,List.mem_append,List.mem_singleton]
      exact or_iff_left fun shared => equal (congrArg Entry.timer shared)

-- A Timer of the batch that stays has its next deadline before it.
theorem reset (old : Kept s) {clock : Int} (able : s.queue.allowed (.reset clock) = true) : Kept (s.apply (.reset clock)) := by
  have queue := old.queue.step _ able
  have sound := old.queue.tracked.sound
  have turns : (s.apply (.reset clock)).turns = s.turns := List.append_nil _
  have made : (s.apply (.reset clock)).made = s.made := List.append_nil _
  have same : ∀ q, (s.apply (.reset clock)).turnsOf q = s.turnsOf q := fun q => congrArg (List.filter _) turns
  have used : (s.apply (.reset clock)).queue.used = s.queue.used := (old.queue.reset_records able).used
  have expired : (s.apply (.reset clock)).queue.expired = [] := old.queue.emptied able
  have done : (s.apply (.reset clock)).queue.done = [] :=
    List.eq_nil_iff_forall_not_mem.mpr fun e member => (by
      have inside := Accounted.inside member
      rw [expired] at inside
      cases inside)
  refine ⟨queue,?_,made ▸ old.once,?_,?_,turns ▸ old.on_time,?_,fun timer u found => ?_⟩
  · rw [made,used]
    exact old.used
  · rw [expired]
    exact fun _ absent => (by cases absent)
  · rw [turns,used]
    exact old.known
  · intro t member k turn given
    rw [same] at given
    exact old.regular t (made ▸ member) k turn given
  · change (s.queue.apply _).heap timer = some u at found
    by_cases inside : ∃ e ∈ s.queue.expired, timer = e.timer
    · obtain ⟨e,member,rfl⟩ := inside
      obtain ⟨v,before,expiration⟩ := sound.live (.inr member)
      have left := (old.queue.reset_heap able member before).symm.trans found
      obtain ⟨t,follows⟩ := old.follows e.timer v before
      split at left
      · rename_i choice
        cases left
        have ran : (⟨v.expiration,e.timer⟩ : Entry) ∈ s.queue.done := by
          rw [sound.unique (.inr member) before,Accounted.finished able]
          exact member
        refine ⟨t,made ▸ follows.made,follows.sequence,follows.repeats,follows.interval,fun _ => ?_,fun absent => ?_⟩
        · rw [same,← follows.ran ran]
          unfold Timer.restart
          simp [choice.1,follows.interval]
        · rw [done] at absent
          cases absent
      · cases left
    · have apart : ∀ e ∈ s.queue.expired, timer ≠ e.timer := fun e member equal => inside ⟨e,member,equal⟩
      rw [old.queue.reset_untouched able apart] at found
      obtain ⟨t,follows⟩ := old.follows timer u found
      refine ⟨t,follows.frame (made ▸ follows.made) ?_ (same _)⟩
      rw [done]
      refine iff_of_false List.not_mem_nil fun before => ?_
      exact apart _ (Accounted.inside before) rfl

-- The labels that neither make nor run a Timer.
theorem step (old : Kept s) (able : s.queue.allowed label = true) : Kept (s.apply label) := by
  have queue := old.queue.step label able
  have used := (old.queue.records able).1
  cases label with
  | add timer t clock => exact old.add able
  | cancel timer q =>
    obtain ⟨batch,_,_,_,takes⟩ := (old.queue.recorded timer q).cancelInLoop_takes timer q
    have same : (s.apply (.cancel timer q)).queue.batch = s.queue.batch := batch
    refine old.quiet queue (List.append_nil _) (List.append_nil _) (used.trans (List.append_nil _)) ?_ ?_ takes
    · unfold TimerQueue.expired
      rw [same]
      exact old.due
    · unfold TimerQueue.done
      rw [same]
  | handleRead now =>
    have idle : s.queue.batch = none := Option.isNone_iff_eq_none.mp able
    refine old.quiet queue (List.append_nil _) (List.append_nil _) (used.trans (List.append_nil _)) ?_ ?_ ?_
    · intro e member
      obtain ⟨listed,before⟩ := OrderedSet.mem_below.mp member
      obtain ⟨t,live,_⟩ := old.queue.tracked.sound.live (.inl listed)
      exact (Entry.lt_sentinel (old.queue.tracked.sound.low _ _ live)).mp before
    · unfold TimerQueue.done
      rw [idle]
      rfl
    · intro timer u found
      exact (congrFun (handleRead_heap now) timer).symm.trans found
  | run => exact old.run able
  | returns =>
    obtain ⟨b,here,_⟩ := (Option.any_eq_true _ _).mp able
    have same : (s.apply .returns).queue.batch = some {b with running := false} := by
      change s.queue.batch.map _ = _
      rw [here]
      rfl
    refine old.quiet queue (List.append_nil _) (List.append_nil _) (used.trans (List.append_nil _)) ?_ ?_ fun _ _ found => found
    · have due := old.due
      unfold TimerQueue.expired at due ⊢
      rw [here] at due
      rw [same]
      exact due
    · unfold TimerQueue.done
      rw [same,here]
      rfl
  | reset clock => exact old.reset able
  | expire => exact old.quiet queue (List.append_nil _) (List.append_nil _) (used.trans (List.append_nil _)) old.due rfl fun _ _ found => found

end Kept

theorem kept : machine.Preserves (fun _ _ => True) Kept := by
  refine Machine.guarded_preserves ?_ fun s label old able => old.step able
  rintro _ rfl
  exact Kept.started

-- The turn that a Timer of the heap has in a handleRead at now.
def turnAt (heap : Nat → Option Timer) (now : Int) (e : Entry) : Turn := ⟨(heap e.timer).elim 0 (·.sequence),e.expiration,now⟩

-- A handleRead at now that began in first: what of the batch is done has had
-- its turn, and the Timers of the batch are as they were.
structure Handling (first : Schedule) (now : Int) (s : Schedule) : Prop where
  clock : s.now = now
  turns : s.turns = first.turns ++ s.queue.done.map (turnAt first.queue.heap now)
  batch : s.queue.batch.isSome
  expired : s.queue.expired = first.queue.timers.below ⟨now,UINTPTR_MAX⟩
  heap : ∀ e ∈ s.queue.expired, s.queue.heap e.timer = first.queue.heap e.timer

namespace Handling
variable {first : Schedule}

theorem begun (first : Schedule) (now : Int) : Handling first now (first.apply (.handleRead now)) := by
  refine ⟨rfl,?_,rfl,rfl,fun e _ => congrFun (handleRead_heap now) e.timer⟩
  exact (List.append_nil _).trans (List.append_nil _).symm

theorem quiet (old : Handling first now s) (clock : after.now = s.now) (turns : after.turns = s.turns)
    (batch : after.queue.batch = s.queue.batch)
    (heap : ∀ e ∈ s.queue.expired, after.queue.heap e.timer = s.queue.heap e.timer) : Handling first now after := by
  have done : after.queue.done = s.queue.done := congrArg (Option.elim · [] Batch.done) batch
  have expired : after.queue.expired = s.queue.expired := congrArg (Option.elim · [] Batch.expired) batch
  refine ⟨clock.trans old.clock,?_,batch ▸ old.batch,expired.trans old.expired,fun e member => ?_⟩
  · rw [turns,done]
    exact old.turns
  · rw [expired] at member
    exact (heap e member).trans (old.heap e member)

theorem step (old : Handling first now s) (kept : Kept s) (able : s.queue.allowed label = true)
    (inside : ∀ clock, label ≠ .reset clock) : Handling first now (s.apply label) := by
  have sound := kept.queue.tracked.sound
  cases label with
  | add timer t clock =>
    simp only [allowed,Bool.and_eq_true,decide_eq_true_iff,Option.isNone_iff_eq_none] at able
    obtain ⟨batch,_,heap⟩ := add_parts s.queue timer t clock
    refine old.quiet rfl (List.append_nil _) batch fun e member => ?_
    refine (congrFun heap e.timer).trans ?_
    refine Function.update_of_ne (fun same => ?_) _ _
    obtain ⟨_,live,_⟩ := sound.live (.inr member)
    rw [same,able.1.1.2] at live
    cases live
  | cancel timer q =>
    have recorded := kept.queue.recorded timer q
    obtain ⟨batch,_⟩ := recorded.cancelInLoop_takes timer q
    refine old.quiet rfl (List.append_nil _) batch fun e member => ?_
    change (TimerQueue.cancelInLoop {s.queue with cancels := _} timer q).heap e.timer = _
    rcases recorded.cancelInLoop timer q with ⟨t,found,rfl,active,after⟩ | ⟨_,after⟩ <;> rw [after]
    -- a Timer that cancelInLoop finds is not in the batch
    refine Function.update_of_ne (fun same => ?_) _ _
    obtain ⟨_,there,_,listed⟩ := (sound.active _ _).mp active
    cases found.symm.trans there
    have listed := listed.resolve_right List.not_mem_nil
    exact sound.apart e member (sound.distinct (.inr member) (.inl listed) same ▸ listed)
  | handleRead later =>
    have idle : s.queue.batch = none := Option.isNone_iff_eq_none.mp able
    have batch := old.batch
    rw [idle] at batch
    cases batch
  | run =>
    obtain ⟨done,cur,rest,running,u,t,here,found,expiration,follows,_,_,after⟩ := kept.turn_some able
    have inside : cur ∈ s.queue.expired := by
      unfold TimerQueue.expired
      rw [here]
      exact List.mem_append_right _ List.mem_cons_self
    have before : s.queue.done = done := by
      unfold TimerQueue.done
      rw [here]
      rfl
    have whole : s.queue.expired = done ++ cur :: rest := by
      unfold TimerQueue.expired
      rw [here]
      rfl
    have expired : (s.apply .run).queue.expired = s.queue.expired := by
      rw [whole,after]
      exact List.append_assoc done [cur] rest
    have turn : (⟨t.sequence,cur.expiration,s.now⟩ : Turn) = turnAt first.queue.heap now cur := by
      unfold turnAt
      rw [← old.heap cur inside,found,old.clock,← follows.sequence]
      rfl
    refine ⟨?_,?_,?_,expired.trans old.expired,fun e member => ?_⟩
    · rw [after]
      exact old.clock
    · rw [after,turn]
      change s.turns ++ _ = first.turns ++ List.map _ (done ++ [cur])
      rw [old.turns,before,List.map_append,List.append_assoc]
      rfl
    · rw [after]
      rfl
    · rw [expired] at member
      rw [after]
      exact old.heap e member
  | returns =>
    obtain ⟨b,here,_⟩ := (Option.any_eq_true _ _).mp able
    have same : (s.apply .returns).queue.batch = some {b with running := false} := by
      change s.queue.batch.map _ = _
      rw [here]
      rfl
    have done : (s.apply .returns).queue.done = s.queue.done := by
      unfold TimerQueue.done
      rw [same,here]
      rfl
    have expired : (s.apply .returns).queue.expired = s.queue.expired := by
      unfold TimerQueue.expired
      rw [same,here]
      rfl
    refine ⟨old.clock,?_,?_,expired.trans old.expired,fun e member => old.heap e (expired ▸ member)⟩
    · rw [done]
      exact (List.append_nil _).trans old.turns
    · rw [same]
      rfl
  | reset clock => exact absurd rfl (inside clock)
  | expire => exact old.quiet rfl (List.append_nil _) rfl fun _ _ => rfl

-- Over the callbacks of a handleRead.
theorem run (old : Handling first now s) (kept : Kept s) {labels : List Label} (ran : machine.run s labels = some after)
    (inside : ∀ clock, .reset clock ∉ labels) : Handling first now after := by
  induction labels generalizing s with
  | nil => cases Option.some.inj ran; exact old
  | cons label rest ih =>
    obtain ⟨middle,taken,ran⟩ := Machine.run_cons_parts ran
    obtain ⟨able,rfl⟩ := Machine.guarded_parts.mp taken
    have here : ∀ clock, label ≠ .reset clock := fun clock same => inside clock (same ▸ List.mem_cons_self)
    exact ih (old.step kept able here) (kept.step able) ran fun clock later => inside clock (List.mem_cons_of_mem _ later)

end Handling

-- A callback returns, and then the next one runs or reset ends the handleRead.
theorem goes_on (s : Schedule) (inside : s.queue.batch.isSome = true) :
    s.queue.allowed .run = true ∨ s.queue.allowed .returns = true ∨ ∀ clock, s.queue.allowed (.reset clock) = true := by
  obtain ⟨⟨done,left,running⟩,here⟩ := Option.isSome_iff_exists.mp inside
  unfold allowed
  rw [here]
  cases running with
  | true => exact .inr (.inl rfl)
  | false =>
    cases left with
    | nil => exact .inr (.inr fun _ => rfl)
    | cons cur rest => exact .inl rfl

-- Callbacks run when they are due, every Timer that is due has its turn once and
-- in order, and the turns of a Timer are those of its deadlines, one by one.
theorem runs_on_schedule (path : machine.Reached s) :
    (∀ turn ∈ s.turns, turn.expiration ≤ turn.now) ∧
    (∀ now begun labels final, machine.next s (.handleRead now) = some begun → machine.run begun labels = some final →
      (∀ clock, .reset clock ∉ labels) → (∃ clock, final.queue.allowed (.reset clock) = true) →
      ∃ turns, final.turns = s.turns ++ turns ∧ turns.Pairwise (·.expiration ≤ ·.expiration) ∧ (turns.map (·.sequence)).Nodup ∧
        ∀ turn, turn ∈ turns ↔ turn.now = now ∧ turn.expiration ≤ now ∧ ∃ timer t, s.queue.heap timer = some t ∧
          t.sequence = turn.sequence ∧ t.expiration = turn.expiration ∧ (⟨t.expiration,timer⟩ : Entry) ∈ s.queue.timers) ∧
    (s.queue.batch.isSome = true → s.queue.allowed .run = true ∨ s.queue.allowed .returns = true ∨
      ∀ clock, s.queue.allowed (.reset clock) = true) ∧
    (∀ t ∈ s.made, t.repeats = true → ∀ (k : Nat) (turn : Turn), (s.turnsOf t.sequence)[k]? = some turn →
      turn.expiration = t.expiration + k * t.interval) := by
  have old := kept.reached path
  refine ⟨old.on_time,?_,s.goes_on,fun t member _ k turn given => old.regular t member k turn given⟩
  intro now begun labels final taken ran inside ended
  obtain ⟨able,rfl⟩ := Machine.guarded_parts.mp taken
  obtain ⟨clock,resets⟩ := ended
  have handled := (Handling.begun s now).run (old.step able) ran inside
  have sound := old.queue.tracked.sound
  have heap : ∀ e ∈ s.queue.timers, ∃ t, s.queue.heap e.timer = some t ∧ t.expiration = e.expiration :=
    fun e listed => sound.live (.inl listed)
  have turns := handled.turns
  rw [Accounted.finished resets,handled.expired] at turns
  refine ⟨_,turns,?_,?_,fun turn => ?_⟩
  · refine List.pairwise_map.mpr ((s.queue.timers.sorted.filter _).imp fun before => ?_)
    exact Entry.expiration_le (le_of_lt before)
  · rw [List.map_map]
    refine OrderedSet.below_nodup.map_on fun one first two second same => ?_
    obtain ⟨t,found,_⟩ := heap one (OrderedSet.mem_below.mp first).1
    obtain ⟨u,there,_⟩ := heap two (OrderedSet.mem_below.mp second).1
    have equal : t.sequence = u.sequence := by simpa [turnAt,found,there] using same
    have timer := old.queue.tracked.ledger.alone _ _ t u found there equal
    exact sound.distinct (.inl (OrderedSet.mem_below.mp first).1) (.inl (OrderedSet.mem_below.mp second).1) timer
  · rw [List.mem_map]
    constructor
    · intro given
      obtain ⟨e,member,rfl⟩ := given
      obtain ⟨listed,before⟩ := OrderedSet.mem_below.mp member
      obtain ⟨t,found,expiration⟩ := heap e listed
      refine ⟨rfl,(Entry.lt_sentinel (sound.low _ _ found)).mp before,e.timer,t,found,?_,expiration,?_⟩
      · unfold turnAt
        rw [found]
        rfl
      · rw [sound.unique (.inl listed) found]
        exact listed
    · intro given
      obtain ⟨clock,due,timer,t,found,sequence,expiration,listed⟩ := given
      refine ⟨⟨t.expiration,timer⟩,OrderedSet.mem_below.mpr ⟨listed,?_⟩,?_⟩
      · exact (Entry.lt_sentinel (sound.low _ _ found)).mpr (expiration ▸ due)
      · unfold turnAt
        dsimp only
        rw [found,← clock,expiration]
        cases turn
        cases sequence
        rfl

-- The clock jumps over two periods and then goes back: each deadline has its
-- own turn, late or not, and the third is not due yet.
def stalled : List Label :=
  [.add 1 ⟨100,50,true,7⟩ 0,.add 2 ⟨120,0,false,8⟩ 0,.expire,.handleRead 230,.run,.returns,.run,.returns,.reset 231,
    .handleRead 160,.run,.returns,.reset 161,.handleRead 155,.reset 156]

theorem stalled_on_schedule : ∃ s, machine.run new stalled = some s ∧
    s.turns = [⟨7,100,230⟩,⟨8,120,230⟩,⟨7,150,160⟩] ∧ (∀ turn ∈ s.turns, turn.expiration ≤ turn.now) ∧
    ∀ (k : Nat) (turn : Turn), (s.turnsOf 7)[k]? = some turn → turn.expiration = 100 + k * 50 := by
  refine ⟨_,rfl,rfl,?_⟩
  obtain ⟨on_time,_,_,regular⟩ := runs_on_schedule (@Machine.Reached.run _ _ machine new stalled _ (.start rfl) rfl)
  exact ⟨on_time,regular ⟨100,50,true,7⟩ List.mem_cons_self rfl⟩

end Schedule
end TimerQueue
end NewMuduo
