import NewMuduo.MPMCPositions

namespace NewMuduo.MPMCQueue
variable {T Tid : Type} {s after : MPMCQueue T Tid} {k : Nat} {t : Tid} {movedFrom : T → T}

-- The item of a position, where a thread that owns it keeps it.
def Holds (k : Nat) (won : List T) (data : Nat → T) : Thread T → Prop
  | .enqWrite item pos => won[pos]? = some item
  | .enqPublish pos => won[pos]? = some (data (cell k pos))
  | .deqRelease pos out => won[pos]? = some out
  | _ => True

structure Stored (k : Nat) (s : MPMCQueue T Tid) : Prop where
  won : s.won.length = s.enqueuePos
  left : s.left = List.range s.dequeuePos
  holds : ∀ t, Holds k s.won s.data (s.threads t)
  cells : ∀ p, s.filled p = true → s.freed p = false → (∀ t out, s.threads t ≠ .deqRelease p out) →
    s.won[p]? = some (s.data (cell k p))

-- The positions of the calls that succeeded.
def enqueuedAt : Outcome T → Option Nat
  | .enqueued pos => some pos
  | _ => none

def dequeuedAt : Outcome T → Option Nat
  | .dequeued pos _ => some pos
  | _ => none

def Right (won : List T) : Outcome T → Prop
  | .enqueued _ => True
  | .full _ vacated => vacated = false
  | .dequeued pos out => won[pos]? = some out
  | .empty _ filled => filled = false

structure Logged (s : MPMCQueue T Tid) : Prop where
  right : ∀ outcome ∈ s.outcomes, Right s.won outcome
  enqueued : ∀ p, p ∈ s.outcomes.filterMap enqueuedAt ↔ s.filled p = true
  dequeued : ∀ p, p ∈ s.outcomes.filterMap dequeuedAt ↔ s.freed p = true
  enqueuedOnce : (s.outcomes.filterMap enqueuedAt).Nodup
  dequeuedOnce : (s.outcomes.filterMap dequeuedAt).Nodup

theorem won_grows {won : List T} {item other : T} {p : Nat} (found : won[p]? = some item) : (won ++ [other])[p]? = some item := by
  rw [List.getElem?_append_left (List.getElem?_eq_some_iff.mp found).1]
  exact found

theorem Placed.unfilled_kept (placed : Placed k s) (unfilled : s.filled p = false) : s.freed p = false := by
  cases freed : s.freed p with
  | false => rfl
  | true => rw [placed.taken p (placed.freedBelow p freed)] at unfilled; cases unfilled

-- Positions in use have different cells.
theorem Placed.data_apart (placed : Placed k s) (one : p < s.enqueuePos) (two : q < s.enqueuePos)
    (kept : s.freed p = false) (left : s.freed q = false) (other : q ≠ p) (value : T) :
    Function.update s.data (cell k p) value (cell k q) = s.data (cell k q) :=
  Function.update_of_ne (fun equal => other (placed.same equal two one left kept)) _ _

variable [DecidableEq Tid]

theorem holds_put {items grown : List T} {cells stored : Nat → T} {threads : Tid → Thread T} {next : Thread T}
    (holds : ∀ u, Holds k items cells (threads u)) (here : Holds k grown stored next)
    (others : ∀ u, u ≠ t → Holds k items cells (threads u) → Holds k grown stored (threads u)) (u : Tid) :
    Holds k grown stored (Function.update threads t next u) := by
  by_cases same : u = t
  · rwa [same,Function.update_self]
  · rw [Function.update_of_ne same]
    exact others u same (holds u)

theorem released_put {threads : Tid → Thread T} (here : ∀ out, threads t ≠ .deqRelease p out)
    (none : ∀ u out, Function.update threads t next u ≠ .deqRelease p out) (u : Tid) (out : T) :
    threads u ≠ .deqRelease p out := by
  by_cases same : u = t
  · rw [same]; exact here out
  · have later := none u out
    rwa [Function.update_of_ne same] at later

-- A step of t that leaves the items alone.
theorem Stored.quiet (old : Stored k s) (next : Thread T) (here : ∀ p out, s.threads t ≠ .deqRelease p out)
    (holds : Holds k s.won s.data next) : Stored k (s.put t next) :=
  ⟨old.won,old.left,holds_put old.holds holds fun _ _ same => same,
    fun p filled kept none => old.cells p filled kept (released_put (here p) none)⟩

omit [DecidableEq Tid] in
theorem Stored.log (old : Stored k s) (outcomes : List (Outcome T)) : Stored k {s with outcomes := outcomes} :=
  ⟨old.won,old.left,old.holds,old.cells⟩

theorem Stored.claimEnqueue (old : Stored k s) (here : s.threads t = .enqClaim item s.enqueuePos) :
    Stored k {s.put t (.enqWrite item s.enqueuePos) with enqueuePos := s.enqueuePos + 1,won := s.won ++ [item]} := by
  refine ⟨?_,old.left,holds_put old.holds ?_ fun u _ holds => ?_,fun p filled kept none => ?_⟩
  · rw [List.length_append,old.won]; rfl
  · have last : (s.won ++ [item])[s.won.length]? = some item := by simp
    rwa [old.won] at last
  · cases place : s.threads u <;> rw [place] at holds <;> first | exact won_grows holds | trivial
  · exact won_grows (old.cells p filled kept (released_put (fun out same => by cases here.symm.trans same) none))

theorem Stored.write (old : Stored k s) (placed : Placed k s) (here : s.threads t = .enqWrite item pos) :
    Stored k {s.put t (.enqPublish pos) with data := Function.update s.data (cell k pos) item} := by
  have owned : enqOwns (s.threads t) = some pos := by rw [here]; rfl
  obtain ⟨below,unfilled⟩ := placed.enq.holds owned
  have kept := placed.unfilled_kept unfilled
  have item := old.holds t
  rw [here] at item
  refine ⟨old.won,old.left,holds_put old.holds ?_ fun u apart holds => ?_,fun p filled left none => ?_⟩
  · change s.won[pos]? = some (Function.update s.data (cell k pos) _ (cell k pos))
    rw [Function.update_self]
    exact item
  · cases place : s.threads u with
    | enqPublish q =>
      have other : enqOwns (s.threads u) = some q := by rw [place]; rfl
      obtain ⟨before,open_⟩ := placed.enq.holds other
      have differ : q ≠ pos := fun same => apart (placed.enq.alone u t pos (same ▸ other) owned)
      rw [place] at holds
      change s.won[q]? = some (Function.update s.data (cell k pos) _ (cell k q))
      rw [placed.data_apart below before kept (placed.unfilled_kept open_) differ]
      exact holds
    | _ => rw [place] at holds; exact holds
  · have differ : p ≠ pos := by
      rintro rfl
      cases unfilled.symm.trans filled
    change s.won[p]? = some (Function.update s.data (cell k pos) _ (cell k p))
    rw [placed.data_apart below (placed.filledBelow p filled) kept left differ]
    exact old.cells p filled left (released_put (fun out same => by cases here.symm.trans same) none)

theorem Stored.publish (old : Stored k s) (here : s.threads t = .enqPublish pos) (outcomes : List (Outcome T)) :
    Stored k {s.put t .idle with
      sequence := Function.update s.sequence (cell k pos) (pos + 1)
      filled := Function.update s.filled pos true
      outcomes := outcomes} := by
  have item := old.holds t
  rw [here] at item
  refine ⟨old.won,old.left,holds_put old.holds trivial fun _ _ same => same,fun p filled kept none => ?_⟩
  by_cases same : p = pos
  · rw [same]; exact item
  · refine old.cells p ((Function.update_of_ne same _ _).symm.trans filled) kept ?_
    exact released_put (fun out same => by cases here.symm.trans same) none

theorem Stored.claimDequeue (old : Stored k s) (here : s.threads t = .deqClaim s.dequeuePos) :
    Stored k {s.put t (.deqRead s.dequeuePos) with
      dequeuePos := s.dequeuePos + 1,left := s.left ++ [s.dequeuePos]} := by
  refine ⟨old.won,?_,holds_put old.holds trivial fun _ _ same => same,fun p filled kept none => ?_⟩
  · rw [old.left,List.range_succ]
  · exact old.cells p filled kept (released_put (fun out same => by cases here.symm.trans same) none)

theorem Stored.read (old : Stored k s) (placed : Placed k s) (here : s.threads t = .deqRead pos) :
    Stored k {s.put t (.deqRelease pos (s.data (cell k pos))) with
      data := Function.update s.data (cell k pos) (movedFrom (s.data (cell k pos)))} := by
  have owned : deqOwns (s.threads t) = some pos := by rw [here]; rfl
  obtain ⟨won,kept⟩ := placed.deq.holds owned
  have filled := placed.taken pos won
  have below := placed.filledBelow pos filled
  have unread : ∀ u out, s.threads u ≠ .deqRelease pos out := by
    intro u out place
    have same := placed.deq.alone u t pos (by rw [place]; rfl) owned
    rw [same,here] at place
    cases place
  have item := old.cells pos filled kept unread
  refine ⟨old.won,old.left,holds_put old.holds item fun u _ holds => ?_,fun p filled_ left none => ?_⟩
  · cases place : s.threads u with
    | enqPublish q =>
      obtain ⟨before,open_⟩ := placed.enq.holds (show enqOwns (s.threads u) = some q by rw [place]; rfl)
      have differ : q ≠ pos := fun same => by rw [same,filled] at open_; cases open_
      rw [place] at holds
      change s.won[q]? = some (Function.update s.data (cell k pos) _ (cell k q))
      rw [placed.data_apart below before kept (placed.unfilled_kept open_) differ]
      exact holds
    | _ => rw [place] at holds; exact holds
  · have differ : p ≠ pos := by
      rintro rfl
      exact none t _ (Function.update_self _ _ _)
    change s.won[p]? = some (Function.update s.data (cell k pos) _ (cell k p))
    rw [placed.data_apart below (placed.filledBelow p filled_) kept left differ]
    exact old.cells p filled_ left (released_put (fun out same => by cases here.symm.trans same) none)

theorem Stored.release (old : Stored k s) (here : s.threads t = .deqRelease pos out) (outcomes : List (Outcome T)) :
    Stored k {s.put t .idle with
      sequence := Function.update s.sequence (cell k pos) (pos + 2 ^ k)
      freed := Function.update s.freed pos true
      outcomes := outcomes} := by
  refine ⟨old.won,old.left,holds_put old.holds trivial fun _ _ same => same,fun p filled kept none => ?_⟩
  have differ : p ≠ pos := by
    rintro rfl
    cases (Function.update_self p true s.freed).symm.trans kept
  refine old.cells p filled ((Function.update_of_ne differ _ _).symm.trans kept) (released_put (fun other same => ?_) none)
  rw [here] at same
  cases same
  exact differ rfl

theorem Stored.moves (old : Stored k s) (placed : Placed k s) (moved : Moves k movedFrom s t after) : Stored k after := by
  cases moved with
  | rest => exact old
  | callEnqueue item here => exact old.quiet _ (fun p out same => by cases here.symm.trans same) trivial
  | callDequeue here => exact old.quiet _ (fun p out same => by cases here.symm.trans same) trivial
  | enqLoad here => exact old.quiet _ (fun p out same => by cases here.symm.trans same) trivial
  | enqFree here free => exact old.quiet _ (fun p out same => by cases here.symm.trans same) trivial
  | enqFull here => exact (old.quiet .idle (fun p out same => by cases here.symm.trans same) trivial).log _
  | enqBehind here => exact old.quiet _ (fun p out same => by cases here.symm.trans same) trivial
  | enqClaim here => exact old.claimEnqueue here
  | enqRetry here => exact old.quiet _ (fun p out same => by cases here.symm.trans same) trivial
  | enqWrite here => exact old.write placed here
  | enqPublish here => exact old.publish here _
  | deqLoad here => exact old.quiet _ (fun p out same => by cases here.symm.trans same) trivial
  | deqReady here ready => exact old.quiet _ (fun p out same => by cases here.symm.trans same) trivial
  | deqEmpty here => exact (old.quiet .idle (fun p out same => by cases here.symm.trans same) trivial).log _
  | deqBehind here => exact old.quiet _ (fun p out same => by cases here.symm.trans same) trivial
  | deqClaim here => exact old.claimDequeue here
  | deqRetry here => exact old.quiet _ (fun p out same => by cases here.symm.trans same) trivial
  | deqRead here => exact old.read placed here
  | deqRelease here => exact old.release here _

-- How one more outcome changes the flags of its kind: not at all, or at a
-- position that was not set.
def Flags (position : Outcome T → Option Nat) (outcome : Outcome T) (before now : Nat → Bool) : Prop :=
  position outcome = none ∧ now = before ∨
  ∃ pos, position outcome = some pos ∧ before pos = false ∧ now = Function.update before pos true

omit [DecidableEq Tid] in
theorem flags_log {position : Outcome T → Option Nat} {outcome : Outcome T} {before now : Nat → Bool}
    {log : List (Outcome T)} (listed : ∀ p, p ∈ log.filterMap position ↔ before p = true)
    (once : (log.filterMap position).Nodup) (flags : Flags position outcome before now) :
    (∀ p, p ∈ (log ++ [outcome]).filterMap position ↔ now p = true) ∧
      ((log ++ [outcome]).filterMap position).Nodup := by
  rcases flags with ⟨none,rfl⟩ | ⟨pos,position_eq,unset,rfl⟩
  · have same : (log ++ [outcome]).filterMap position = log.filterMap position := by simp [none]
    rw [same]
    exact ⟨listed,once⟩
  · have more : (log ++ [outcome]).filterMap position = log.filterMap position ++ [pos] := by simp [position_eq]
    rw [more]
    constructor
    · intro p
      by_cases same : p = pos
      · simp [same]
      · rw [List.mem_append,List.mem_singleton,Function.update_of_ne same,listed]
        simp [same]
    · refine List.nodup_append.mpr ⟨once,List.nodup_singleton pos,?_⟩
      intro p found q there same
      rw [List.mem_singleton.mp there] at same
      rw [same,listed,unset] at found
      cases found

omit [DecidableEq Tid] in
theorem Logged.append (old : Logged s) {outcome : Outcome T} (outcomes : after.outcomes = s.outcomes ++ [outcome])
    (won : after.won = s.won) (right : Right s.won outcome) (filled : Flags enqueuedAt outcome s.filled after.filled)
    (freed : Flags dequeuedAt outcome s.freed after.freed) : Logged after := by
  obtain ⟨enqueued,enqueuedOnce⟩ := flags_log old.enqueued old.enqueuedOnce filled
  obtain ⟨dequeued,dequeuedOnce⟩ := flags_log old.dequeued old.dequeuedOnce freed
  rw [← outcomes] at enqueued enqueuedOnce dequeued dequeuedOnce
  refine ⟨?_,enqueued,dequeued,enqueuedOnce,dequeuedOnce⟩
  rw [outcomes,won]
  intro other found
  rcases List.mem_append.mp found with earlier | now
  · exact old.right other earlier
  · rw [List.mem_singleton.mp now]; exact right

omit [DecidableEq Tid] in
theorem Logged.silent (old : Logged s) (outcomes : after.outcomes = s.outcomes) (filled : after.filled = s.filled)
    (freed : after.freed = s.freed) (won : ∀ (p : Nat) (item : T), s.won[p]? = some item → after.won[p]? = some item) :
    Logged after := by
  refine ⟨?_,?_,?_,?_,?_⟩
  · rw [outcomes]
    intro outcome found
    have right := old.right outcome found
    cases outcome with
    | dequeued pos out => exact won pos out right
    | _ => exact right
  · rw [outcomes,filled]; exact old.enqueued
  · rw [outcomes,freed]; exact old.dequeued
  · rw [outcomes]; exact old.enqueuedOnce
  · rw [outcomes]; exact old.dequeuedOnce

theorem Logged.moves (old : Logged s) (placed : Placed k s) (stored : Stored k s)
    (moved : Moves k movedFrom s t after) : Logged after := by
  cases moved with
  | rest => exact old
  | enqFull here below =>
    have loaded := placed.waits t
    rw [here] at loaded
    obtain ⟨wraps,kept⟩ := placed.full_waits loaded below
    refine old.append rfl rfl ?_ (.inl ⟨rfl,rfl⟩) (.inl ⟨rfl,rfl⟩)
    change (decide _ || _) = false
    rw [kept,Bool.or_false,decide_eq_false_iff_not]
    omega
  | deqEmpty here below =>
    exact old.append rfl rfl (placed.empty_waits below) (.inl ⟨rfl,rfl⟩) (.inl ⟨rfl,rfl⟩)
  | enqClaim here => exact old.silent rfl rfl rfl fun _ _ => won_grows
  | enqPublish here =>
    have held := placed.enq.holds (show enqOwns (s.threads t) = some _ by rw [here]; rfl)
    exact old.append rfl rfl trivial (.inr ⟨_,rfl,held.2,rfl⟩) (.inl ⟨rfl,rfl⟩)
  | deqRelease here =>
    have held := placed.deq.holds (show deqOwns (s.threads t) = some _ by rw [here]; rfl)
    have item := stored.holds t
    rw [here] at item
    exact old.append rfl rfl item (.inl ⟨rfl,rfl⟩) (.inr ⟨_,rfl,held.2,rfl⟩)
  | _ => exact old.silent rfl rfl rfl fun _ _ same => same

def owns (thread : Thread T) : Option Nat := (enqOwns thread).or (deqOwns thread)

-- The cell whose data the next step of a thread reads or writes.
def accesses (k : Nat) : Thread T → Option Nat
  | .enqWrite _ pos | .deqRead pos => some (cell k pos)
  | _ => none

omit [DecidableEq Tid] in
theorem owns_parts {thread : Thread T} (owned : owns thread = some p) :
    enqOwns thread = some p ∨ deqOwns thread = some p := by
  cases thread <;> simp_all [owns,enqOwns,deqOwns]

omit [DecidableEq Tid] in
theorem accesses_owns {thread : Thread T} (accessed : accesses k thread = some c) :
    ∃ p, owns thread = some p ∧ cell k p = c := by
  cases thread <;> simp_all [owns,enqOwns,deqOwns,accesses]

omit [DecidableEq Tid] in
theorem Placed.alone (placed : Placed k s) (other : t ≠ u) (owned : owns (s.threads t) = some p)
    (owner : owns (s.threads u) = some q) : cell k p ≠ cell k q := by
  have used : ∀ {v r}, owns (s.threads v) = some r → r < s.enqueuePos ∧ s.freed r = false := by
    intro v r found
    rcases owns_parts found with enq | deq
    · have held := placed.enq.holds enq
      exact ⟨held.1,placed.unfilled_kept held.2⟩
    · have held := placed.deq.holds deq
      exact ⟨Nat.lt_of_lt_of_le held.1 placed.behind,held.2⟩
  intro equal
  obtain rfl := placed.same equal (used owned).1 (used owner).1 (used owned).2 (used owner).2
  have mixed : ∀ {v w}, enqOwns (s.threads v) = some p → deqOwns (s.threads w) = some p → False := by
    intro v w enq deq
    have unfilled := (placed.enq.holds enq).2
    rw [placed.taken p (placed.deq.holds deq).1] at unfilled
    cases unfilled
  rcases owns_parts owned with enq | deq <;> rcases owns_parts owner with enqueue | dequeue
  · exact other (placed.enq.alone t u p enq enqueue)
  · exact mixed enq dequeue
  · exact mixed enqueue deq
  · exact other (placed.deq.alone t u p deq dequeue)

theorem kept (large : 0 < k) : (machine k movedFrom initial : Machine (MPMCQueue T Tid) (Label T Tid)).Preserves
    (fun _ _ => True) fun s => Placed k s ∧ Stored k s ∧ Logged s := by
  refine Machine.guarded_preserves ?_ ?_
  · rintro _ rfl
    refine ⟨.start k initial,⟨rfl,rfl,fun _ => trivial,fun _ found => (by cases found)⟩,?_⟩
    exact ⟨fun _ found => (by cases found),fun _ => by simp [new],fun _ => by simp [new],.nil,.nil⟩
  · intro s label given able
    obtain ⟨placed,stored,logged⟩ := given
    obtain ⟨t,moved⟩ := apply_moves movedFrom label able
    exact ⟨placed.moves large moved,stored.moves placed moved,logged.moves placed stored moved⟩

-- One owner for each cell in use, every item out once and in the order of the
-- enqueue positions, and no refusal without cause.
theorem items_pass_once_in_order (large : 0 < k) (path : (machine k movedFrom initial).Reached s) :
    (∀ t u p c, t ≠ u → owns (s.threads t) = some p → accesses k (s.threads u) = some c → cell k p ≠ c) ∧
    (s.dequeuePos ≤ s.enqueuePos ∧ s.enqueuePos ≤ s.dequeuePos + 2 ^ k) ∧
    (s.won.length = s.enqueuePos ∧ s.left = List.range s.dequeuePos) ∧
    (∀ outcome ∈ s.outcomes, Right s.won outcome) ∧
    (s.outcomes.filterMap dequeuedAt).Nodup ∧
    (∀ p, p < s.dequeuePos →
      (∃ out, .dequeued p out ∈ s.outcomes) ∨ ∃ t, deqOwns (s.threads t) = some p) ∧
    ∀ p, s.dequeuePos ≤ p → p < s.enqueuePos →
      s.won[p]? = some (s.data (cell k p)) ∨ ∃ t, enqOwns (s.threads t) = some p := by
  obtain ⟨placed,stored,logged⟩ := (kept large).reached path
  refine ⟨?_,⟨placed.behind,placed.room⟩,⟨stored.won,stored.left⟩,logged.right,logged.dequeuedOnce,?_,?_⟩
  · intro t u p c other owned accessed
    obtain ⟨q,owner,here⟩ := accesses_owns accessed
    rw [← here]
    exact placed.alone other owned owner
  · intro p won
    cases freed : s.freed p with
    | false => exact .inr ((placed.deq.held_iff p).mp ⟨won,freed⟩)
    | true =>
      obtain ⟨outcome,found,same⟩ := List.mem_filterMap.mp ((logged.dequeued p).mpr freed)
      cases outcome with
      | dequeued pos out => cases same; exact .inl ⟨out,found⟩
      | _ => cases same
  · intro p inside below
    cases filled : s.filled p with
    | false => exact .inr ((placed.enq.held_iff p).mp ⟨below,filled⟩)
    | true =>
      have kept : s.freed p = false := by
        cases freed : s.freed p with
        | false => rfl
        | true => have before := placed.freedBelow p freed; omega
      refine .inl (stored.cells p filled kept fun t out here => ?_)
      have held := (placed.deq.holds (show deqOwns (s.threads t) = some p by rw [here]; rfl)).1
      omega

-- A producer and a consumer on a queue of two cells.
def exchange : List (Label Nat Bool) :=
  [.enqueue true 7,.dequeue false,.step true false,.step true false,.step true true,.step true false,.step true false,
    .step false false,.step true false,.step true false,.step false false,.step false false,.step false false,.step false false]

theorem exchange_passes : ∃ s, (machine 1 id 0).run (new 0) exchange = some s ∧
    s.won = [7] ∧ s.outcomes.filterMap dequeuedAt = [0] ∧ s.left = List.range s.dequeuePos ∧
    (∀ outcome ∈ s.outcomes, Right s.won outcome) ∧ (s.outcomes.filterMap dequeuedAt).Nodup := by
  refine ⟨_,rfl,rfl,rfl,?_⟩
  obtain ⟨_,_,⟨_,left⟩,right,once,_⟩ :=
    items_pass_once_in_order (by decide) (@Machine.Reached.run _ _ (machine 1 id 0) (new 0) exchange _ (.start rfl) rfl)
  exact ⟨left,right,once⟩

end NewMuduo.MPMCQueue
