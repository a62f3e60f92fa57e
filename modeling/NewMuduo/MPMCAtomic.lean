import NewMuduo.AtomicObject
import NewMuduo.MPMCContents
import NewMuduo.MPMCSerial

namespace NewMuduo
variable {T Tid : Type}

namespace QueueCall

-- A call of the other kind has had its effect on the list and is not over.
def Overlaps (a : AtomicObject (List T) (QueueCall T) (QueueResult T) Tid) : QueueCall T → Prop
  | .enqueue _ => ∃ u out, a.calls u = .done (.dequeue (some out))
  | .dequeue => ∃ u, a.calls u = .done (.enqueue true)

def refusal : QueueCall T → QueueResult T
  | .enqueue _ => .enqueue false
  | .dequeue => .dequeue none

-- A list bounded by the capacity that may also refuse a call in such a state.
def passes (capacity : Nat) : AtomicObject.Effects (List T) (QueueCall T) (QueueResult T) Tid :=
  fun a call held result => bounded capacity a.state call = (held,result) ∨ Overlaps a call ∧ held = a.state ∧ result = refusal call

end QueueCall

def QueueEvent.atomic : QueueEvent T Tid → AtomicObject.Event (QueueCall T) (QueueResult T) Tid
  | .enqueue t item => .called t (.enqueue item)
  | .dequeue t => .called t .dequeue
  | .returned t result => .returned t result

namespace MPMCQueue
open QueueCall
variable {s after : MPMCQueue T Tid} {a : AtomicObject (List T) (QueueCall T) (QueueResult T) Tid} {k : Nat} {t : Tid}
  {movedFrom : T → T} {initial : T}

def held (s : MPMCQueue T Tid) : List T := s.won.drop s.dequeuePos

-- A call takes effect when it wins its exchange, or is refused.
def view (won : List T) : Thread T → AtomicObject.Call (QueueCall T) (QueueResult T)
  | .idle => .idle
  | .enqLoad item | .enqSequence item _ | .enqClaim item _ => .called (.enqueue item)
  | .enqWrite _ _ | .enqPublish _ => .done (.enqueue true)
  | .deqLoad | .deqSequence _ | .deqClaim _ => .called .dequeue
  | .deqRead pos => .done (.dequeue won[pos]?)
  | .deqRelease _ out => .done (.dequeue (some out))

structure Shows (k : Nat) (s : MPMCQueue T Tid) (a : AtomicObject (List T) (QueueCall T) (QueueResult T) Tid) : Prop where
  placed : Placed k s
  stored : Stored k s
  state : a.state = held s
  calls : ∀ t, a.calls t = view s.won (s.threads t)

theorem Shows.length (old : Shows k s a) : a.state.length = s.enqueuePos - s.dequeuePos := by
  rw [old.state,held,List.length_drop,old.stored.won]

-- The item of a position that has been dequeued is known.
theorem view_grows (placed : Placed k s) (stored : Stored k s) (item : T) (u : Tid) :
    view (s.won ++ [item]) (s.threads u) = view s.won (s.threads u) := by
  cases here : s.threads u with
  | deqRead pos =>
    have below := (placed.deq.holds (show deqOwns (s.threads u) = some pos by rw [here]; rfl)).1
    have inside : pos < s.won.length := by
      rw [stored.won]
      exact Nat.lt_of_lt_of_le below placed.behind
    simp only [view,List.getElem?_append_left inside]
  | _ => rfl

variable [DecidableEq Tid]

-- The new state shows what some steps of the list lead to.
def Follows (k : Nat) (after : MPMCQueue T Tid) (a : AtomicObject (List T) (QueueCall T) (QueueResult T) Tid)
    (events : List (AtomicObject.Event (QueueCall T) (QueueResult T) Tid)) : Prop :=
  ∃ final, AtomicObject.Shown (passes (2 ^ k)) [] a final events ∧ Shows k after final

-- Thread t goes on, and the list has become this one.
theorem Shows.goes (old : Shows k s a) (large : 0 < k) (moved : Moves k movedFrom s t after) (list : List T) (now : list = held after)
    (others : ∀ u, view after.won (s.threads u) = view s.won (s.threads u)) :
    Shows k after (a.put list t (view after.won (after.threads t))) := by
  refine ⟨old.placed.moves large moved,old.stored.moves old.placed moved,now,fun u => ?_⟩
  rw [moved.threads,Function.update_self]
  change Function.update a.calls t _ u = _
  by_cases equal : u = t
  · rw [equal,Function.update_self,Function.update_self]
  · rw [Function.update_of_ne equal,Function.update_of_ne equal,old.calls u,others]

-- The list stays as it is.
theorem Shows.stays (old : Shows k s a) (large : 0 < k) (moved : Moves k movedFrom s t after) (won : after.won = s.won)
    (dequeuePos : after.dequeuePos = s.dequeuePos) : Shows k after (a.put a.state t (view after.won (after.threads t))) :=
  old.goes large moved a.state (by rw [old.state,held,held,won,dequeuePos]) fun u => by rw [won]

theorem Shows.quiet (old : Shows k s a) (large : 0 < k) (moved : Moves k movedFrom s t after) (won : after.won = s.won)
    (dequeuePos : after.dequeuePos = s.dequeuePos) (here : view after.won (after.threads t) = view s.won (s.threads t)) :
    Follows k after a [] := by
  have shows := old.stays large moved won dequeuePos
  rw [here,← old.calls t,AtomicObject.put,Function.update_eq_self] at shows
  exact ⟨a,AtomicObject.shown_nothing,shows⟩

-- A call that has had its effect returns.
theorem Shows.finish (old : Shows k s a) (large : 0 < k) (moved : Moves k movedFrom s t after) (won : after.won = s.won)
    (dequeuePos : after.dequeuePos = s.dequeuePos) {out : QueueResult T} (done : view s.won (s.threads t) = .done out)
    (idle : after.threads t = .idle) : Follows k after a [.returned t out] := by
  have shows := old.stays large moved won dequeuePos
  rw [idle] at shows
  exact ⟨_,AtomicObject.shown_finish ((old.calls t).trans done),shows⟩

-- A call that has had none is refused.
theorem Shows.refuse (old : Shows k s a) (large : 0 < k) (moved : Moves k movedFrom s t after) (won : after.won = s.won)
    (dequeuePos : after.dequeuePos = s.dequeuePos) {call : QueueCall T} (called : view s.won (s.threads t) = .called call)
    (idle : after.threads t = .idle) (refused : passes (2 ^ k) a call a.state (refusal call)) :
    Follows k after a [.returned t (refusal call)] := by
  have shows := old.stays large moved won dequeuePos
  rw [idle] at shows
  change Shows k after (a.put a.state t .idle) at shows
  refine ⟨_,AtomicObject.shown_effect ((old.calls t).trans called) refused (AtomicObject.shown_finish (AtomicObject.put_calls ..)),?_⟩
  simpa only [AtomicObject.put,Function.update_idem] using shows

theorem Shows.enqClaim (old : Shows k s a) (large : 0 < k) (movedFrom : T → T) {item : T} (here : s.threads t = .enqClaim item s.enqueuePos) :
    Follows k {s.put t (.enqWrite item s.enqueuePos) with enqueuePos := s.enqueuePos + 1,won := s.won ++ [item]} a [] := by
  have moved : Moves k movedFrom s t {s.put t (.enqWrite item s.enqueuePos) with
      enqueuePos := s.enqueuePos + 1,won := s.won ++ [item]} := .enqClaim here
  have room := (old.placed.moves large moved).room
  have behind := old.placed.behind
  have grown : a.state ++ [item] = (s.won ++ [item]).drop s.dequeuePos := by
    rw [old.state,held,List.drop_append_of_le_length (by rw [old.stored.won]; exact behind)]
  have effect : bounded (2 ^ k) a.state (.enqueue item) = (a.state ++ [item],.enqueue true) := by
    refine if_pos ?_
    rw [old.length]
    change s.enqueuePos + 1 ≤ s.dequeuePos + 2 ^ k at room
    omega
  have called : a.calls t = .called (.enqueue item) := by rw [old.calls t,here]; rfl
  refine ⟨_,AtomicObject.shown_effect called (.inl effect) AtomicObject.shown_nothing,?_⟩
  have shows := old.goes large moved _ grown (view_grows old.placed old.stored item)
  simpa only [put,Function.update_self,view] using shows

theorem Shows.deqClaim (old : Shows k s a) (large : 0 < k) (movedFrom : T → T) (here : s.threads t = .deqClaim s.dequeuePos) :
    Follows k {s.put t (.deqRead s.dequeuePos) with dequeuePos := s.dequeuePos + 1,left := s.left ++ [s.dequeuePos]} a [] := by
  have moved : Moves k movedFrom s t {s.put t (.deqRead s.dequeuePos) with
      dequeuePos := s.dequeuePos + 1,left := s.left ++ [s.dequeuePos]} := .deqClaim here
  have inside : s.dequeuePos < s.won.length := by
    rw [old.stored.won]
    exact (old.placed.moves large moved).behind
  have first : a.state = s.won[s.dequeuePos] :: s.won.drop (s.dequeuePos + 1) := by
    rw [old.state,held,List.drop_eq_getElem_cons inside]
  have effect : bounded (2 ^ k) a.state .dequeue = (s.won.drop (s.dequeuePos + 1),.dequeue (some s.won[s.dequeuePos])) := by
    rw [first]
    rfl
  have called : a.calls t = .called .dequeue := by rw [old.calls t,here]; rfl
  refine ⟨_,AtomicObject.shown_effect called (.inl effect) AtomicObject.shown_nothing,?_⟩
  have shows := old.goes large moved (s.won.drop (s.dequeuePos + 1)) rfl fun u => rfl
  simpa only [put,Function.update_self,view,List.getElem?_eq_getElem inside] using shows

omit [DecidableEq Tid] in
-- The cell at the end of the queue is held by the list or by a dequeue that is
-- not over.
theorem Shows.full (old : Shows k s a) {item : T} {pos : Nat} (here : s.threads t = .enqSequence item pos)
    (refused : s.sequence (cell k pos) < pos) : passes (2 ^ k) a (.enqueue item) a.state (.enqueue false) := by
  have loaded := old.placed.waits t
  rw [here] at loaded
  obtain ⟨wraps,kept⟩ := old.placed.full_waits loaded refused
  by_cases taken : pos - 2 ^ k < s.dequeuePos
  · obtain ⟨u,owned⟩ := (old.placed.deq.held_iff (pos - 2 ^ k)).mp ⟨taken,kept⟩
    refine .inr ⟨?_,rfl,rfl⟩
    have called := old.calls u
    cases place : s.threads u with
    | deqRead q =>
      have below := (old.placed.deq.holds (show deqOwns (s.threads u) = some q by rw [place]; rfl)).1
      have inside : q < s.won.length := by
        rw [old.stored.won]
        exact Nat.lt_of_lt_of_le below old.placed.behind
      rw [place,view,List.getElem?_eq_getElem inside] at called
      exact ⟨u,_,called⟩
    | deqRelease q out =>
      rw [place] at called
      exact ⟨u,out,called⟩
    | _ =>
      rw [place] at owned
      cases owned
  · refine .inl (if_neg ?_)
    rw [old.length]
    have below : pos ≤ s.enqueuePos := loaded
    omega

omit [DecidableEq Tid] in
-- The cell at the front of the queue is past the list's end or held by an
-- enqueue that is not over.
theorem Shows.bare (old : Shows k s a) {pos : Nat} (here : s.threads t = .deqSequence pos)
    (refused : s.sequence (cell k pos) < pos + 1) : passes (2 ^ k) a .dequeue a.state (.dequeue none) := by
  have loaded := old.placed.waits t
  rw [here] at loaded
  have unfilled := old.placed.empty_waits refused
  have front : pos = s.dequeuePos := by
    rcases Nat.lt_or_eq_of_le loaded with below | same
    · rw [old.placed.taken pos below] at unfilled
      cases unfilled
    · exact same
  by_cases more : s.dequeuePos < s.enqueuePos
  · obtain ⟨u,owned⟩ := (old.placed.enq.held_iff pos).mp ⟨front ▸ more,unfilled⟩
    refine .inr ⟨⟨u,?_⟩,rfl,rfl⟩
    rw [old.calls u]
    cases place : s.threads u with
    | enqWrite | enqPublish => rfl
    | _ =>
      rw [place] at owned
      cases owned
  · have bare : a.state = [] := List.length_eq_zero_iff.mp (by rw [old.length]; omega)
    refine .inl ?_
    rw [bare]
    rfl

-- What a step adds to the outcomes is what its caller sees.
theorem Shows.moves (old : Shows k s a) (large : 0 < k) (moved : Moves k movedFrom s t after) (busy : s.threads t ≠ .idle) :
    Follows k after a ((after.outcomes.drop s.outcomes.length).map fun outcome => (QueueEvent.returned t (result outcome)).atomic) := by
  have silent : after.outcomes = s.outcomes →
      (after.outcomes.drop s.outcomes.length).map (fun outcome => (QueueEvent.returned t (result outcome)).atomic) = [] := by
    intro same
    rw [same,List.drop_length,List.map_nil]
  have one : ∀ outcome, after.outcomes = s.outcomes ++ [outcome] →
      (after.outcomes.drop s.outcomes.length).map (fun outcome => (QueueEvent.returned t (result outcome)).atomic) =
        [.returned t (result outcome)] := by
    intro outcome same
    rw [same,List.drop_left]
    rfl
  have whole := moved
  cases moved with
  | callEnqueue _ here | callDequeue here => exact absurd here busy
  | rest =>
    rw [silent rfl]
    exact old.quiet large whole rfl rfl rfl
  | enqLoad here | enqFree here _ | enqBehind here | enqRetry here | enqWrite here | deqLoad here | deqReady here _ | deqBehind here
  | deqRetry here =>
    rw [silent rfl]
    refine old.quiet large whole rfl rfl ?_
    rw [here]
    simp only [put,Function.update_self,view]
  | deqRead here =>
    have item := (old.stored.moves old.placed whole).holds t
    simp only [put,Function.update_self,Holds] at item
    rw [silent rfl]
    refine old.quiet large whole rfl rfl ?_
    rw [here]
    simp only [put,Function.update_self,view,item]
  | enqClaim here =>
    rw [silent rfl]
    exact old.enqClaim large movedFrom here
  | deqClaim here =>
    rw [silent rfl]
    exact old.deqClaim large movedFrom here
  | enqFull here below =>
    rw [one _ rfl]
    exact old.refuse large whole rfl rfl (by rw [here]; rfl) (Function.update_self ..) (old.full here below)
  | deqEmpty here below =>
    rw [one _ rfl]
    exact old.refuse large whole rfl rfl (by rw [here]; rfl) (Function.update_self ..) (old.bare here below)
  | enqPublish here | deqRelease here =>
    rw [one _ rfl]
    exact old.finish large whole rfl rfl (by rw [here]; rfl) (Function.update_self ..)

-- A call begins.
theorem Shows.call (old : Shows k s a) (large : 0 < k) (moved : Moves k movedFrom s t (s.put t thread)) (idle : s.threads t = .idle)
    (op : QueueCall T) (called : view s.won thread = .called op) : Follows k (s.put t thread) a [.called t op] := by
  have shows := old.stays large moved rfl rfl
  simp only [put,Function.update_self,called] at shows
  exact ⟨_,AtomicObject.shown_call (by rw [old.calls t,idle]; rfl) op,shows⟩

theorem Shows.next (old : Shows k s a) (large : 0 < k) {label : Label T Tid}
    (taken : (machine k movedFrom initial).next s label = some after) :
    Follows k after a ((sees s label after).map QueueEvent.atomic) := by
  obtain ⟨able,same⟩ := Machine.guarded_parts.mp taken
  rw [← same]
  have idle : ∀ t, Thread.isIdle (s.threads t) = true → s.threads t = .idle := by
    intro t found
    cases here : s.threads t <;> rw [here] at found <;> first | rfl | cases found
  cases label with
  | enqueue t item =>
    have moved : Moves k movedFrom s t (s.put t (.enqLoad item)) := .callEnqueue item (idle t able)
    exact old.call large moved (idle t able) _ rfl
  | dequeue t =>
    have moved : Moves k movedFrom s t (s.put t .deqLoad) := .callDequeue (idle t able)
    exact old.call large moved (idle t able) _ rfl
  | step t spurious =>
    by_cases busy : s.threads t = .idle
    · have still : apply k movedFrom s (.step t spurious) = s := by simp only [apply,step,busy]
      rw [still]
      simp only [sees,List.drop_length,List.map_nil]
      exact ⟨a,AtomicObject.shown_nothing,old⟩
    · simp only [sees,List.map_map]
      exact old.moves large (step_moves movedFrom t spurious) busy

omit [DecidableEq Tid] in
-- The cells carry the list in order, but for items that their enqueue has still
-- to write or to publish.
theorem Shows.cells (old : Shows k s a) {i : Nat} {item : T} (here : a.state[i]? = some item) :
    s.data (cell k (s.dequeuePos + i)) = item ∨ ∃ t, enqOwns (s.threads t) = some (s.dequeuePos + i) := by
  have inside : i < a.state.length := (List.getElem?_eq_some_iff.mp here).1
  rw [old.length] at inside
  cases filled : s.filled (s.dequeuePos + i) with
  | false => exact .inr ((old.placed.enq.held_iff _).mp ⟨by omega,filled⟩)
  | true =>
    have kept : s.freed (s.dequeuePos + i) = false := by
      cases freed : s.freed (s.dequeuePos + i) with
      | false => rfl
      | true =>
        have before := old.placed.freedBelow _ freed
        omega
    have stored := old.stored.cells _ filled kept fun t out there => by
      have before := (old.placed.deq.holds (show deqOwns (s.threads t) = some (s.dequeuePos + i) by rw [there]; rfl)).1
      omega
    rw [old.state,held,List.getElem?_drop,stored] at here
    exact .inl (Option.some.inj here)

theorem shows_run (large : 0 < k) {labels : List (Label T Tid)} {final : MPMCQueue T Tid}
    (ran : (machine k movedFrom initial).run (new initial) labels = some final) :
    ∃ queue, AtomicObject.Shown (passes (2 ^ k)) [] ⟨[],fun _ => .idle⟩ queue
      (((machine k movedFrom initial).trace sees (new initial) labels).map QueueEvent.atomic) ∧ Shows k final queue := by
  have started : Shows k (new initial : MPMCQueue T Tid) ⟨[],fun _ => .idle⟩ := by
    have begun : (machine k movedFrom initial).Reached (new initial : MPMCQueue T Tid) := .start rfl
    obtain ⟨placed,stored,_⟩ := (kept large).reached begun
    exact ⟨placed,stored,rfl,fun _ => rfl⟩
  have matched : ∀ (s : MPMCQueue T Tid) a label after, Shows k s a → True → (machine k movedFrom initial).next s label = some after →
      ∃ steps final, (AtomicObject.machine (passes (2 ^ k)) []).run a steps = some final ∧
        (AtomicObject.machine (passes (2 ^ k)) []).trace AtomicObject.shows a steps = (sees s label after).map QueueEvent.atomic ∧
        Shows k after final := by
    intro s a label after old _ taken
    obtain ⟨final,⟨steps,reached,seen⟩,now⟩ := old.next large taken
    exact ⟨steps,final,reached,seen,now⟩
  obtain ⟨steps,queue,reached,seen,now⟩ := Machine.simulates matched started (Machine.meets_labels fun _ _ _ => trivial) ran
  exact ⟨queue,⟨steps,reached,seen.trans (Machine.trace_map ..)⟩,now⟩

-- What the callers see in any run is a run of a bounded list on which each call
-- takes effect at once, a refusal being false only while a call of the other
-- kind has had its effect and is not over; and the cells carry that list.
theorem refines_queue (large : 0 < k) {labels : List (Label T Tid)} {final : MPMCQueue T Tid}
    (ran : (machine k movedFrom initial).run (new initial) labels = some final) :
    ∃ queue, AtomicObject.Shown (passes (2 ^ k)) [] ⟨[],fun _ => .idle⟩ queue
        (((machine k movedFrom initial).trace sees (new initial) labels).map QueueEvent.atomic) ∧
      queue.state.length = final.enqueuePos - final.dequeuePos ∧
      ∀ i item, queue.state[i]? = some item → final.data (cell k (final.dequeuePos + i)) = item ∨
        ∃ t, enqOwns (final.threads t) = some (final.dequeuePos + i) := by
  obtain ⟨queue,shown,shows⟩ := shows_run large ran
  exact ⟨queue,shown,shows.length,fun i item here => shows.cells here⟩

-- A consumer has won the first of two items and not vacated its cell: a third
-- is refused although one cell's worth of room is there.
def overlapping : List (Label Nat Bool) :=
  [.enqueue true 7] ++ .replicate 5 (.step true false) ++ [.enqueue true 8] ++ .replicate 5 (.step true false) ++
    [.dequeue false,.step false false,.step false false,.step false false,.enqueue true 9,.step true false,.step true false,
      .step false false,.step false false]

theorem overlapping_refused : ∃ s, (machine 1 id 0).run (new 0) overlapping = some s ∧
    ∃ queue : AtomicObject (List Nat) (QueueCall Nat) (QueueResult Nat) Bool,
      AtomicObject.Shown (passes (2 ^ 1)) [] ⟨[],fun _ => .idle⟩ queue
        [.called true (.enqueue 7),.returned true (.enqueue true),.called true (.enqueue 8),.returned true (.enqueue true),
          .called false .dequeue,.called true (.enqueue 9),.returned true (.enqueue false),.returned false (.dequeue (some 7))] ∧
      queue.state.length = 1 := by
  have ran : ∃ s, (machine 1 id 0).run (new 0) overlapping = some s ∧ s.enqueuePos - s.dequeuePos = 1 := ⟨_,rfl,rfl⟩
  have seen : ((machine 1 id 0).trace sees (new 0 : MPMCQueue Nat Bool) overlapping).map QueueEvent.atomic =
      [.called true (.enqueue 7),.returned true (.enqueue true),.called true (.enqueue 8),.returned true (.enqueue true),
        .called false .dequeue,.called true (.enqueue 9),.returned true (.enqueue false),.returned false (.dequeue (some 7))] := rfl
  obtain ⟨s,ran,length⟩ := ran
  obtain ⟨queue,shown,whole,_⟩ := refines_queue (by decide) ran
  exact ⟨s,ran,queue,seen ▸ shown,whole.trans length⟩

end MPMCQueue

namespace MPMCQueueV2
variable [DecidableEq Tid] {k : Nat} {movedFrom : T → T} {initial : T} {labels : List (Label T Tid)} {final : MPMCQueueV2 T Tid}

-- The queue with double-width cursors shows its callers no more than that.
theorem shows_same_queue (large : 0 < k) (size : k < 64) (few : labels.countP Label.isCall < 2 ^ 63)
    (ran : (machine k movedFrom initial).run (new initial) labels = some final) :
    ∃ queue, AtomicObject.Shown (QueueCall.passes (2 ^ k)) [] ⟨[],fun _ => .idle⟩ queue
      (((machine k movedFrom initial).trace sees (new initial) labels).map QueueEvent.atomic) := by
  have met : (machine k movedFrom initial).Meets (fun s label => Label.isCall label = true → s.calls + 1 < 2 ^ 63)
      (new initial : MPMCQueueV2 T Tid) labels := by
    apply few_calls
    change 0 + _ < _
    rw [Nat.zero_add]
    exact few
  have matched : ∀ (s : MPMCQueueV2 T Tid) (a : MPMCQueue T Tid) label after, Refines k s a ∧ Bounded s →
      (Label.isCall label = true → s.calls + 1 < 2 ^ 63) → (machine k movedFrom initial).next s label = some after →
      ∃ others last, (MPMCQueue.machine k movedFrom initial).run a others = some last ∧
        (MPMCQueue.machine k movedFrom initial).trace MPMCQueue.sees a others = sees s label after ∧
        Refines k after last ∧ Bounded after := by
    intro s a label after both few taken
    obtain ⟨able,rfl⟩ := Machine.guarded_parts.mp taken
    exact matched_apply size both.1 both.2 label able few
  obtain ⟨others,last,ended,same,_⟩ := Machine.simulates matched ⟨refines_new size,bounded_new⟩ met ran
  obtain ⟨queue,shown,_⟩ := MPMCQueue.shows_run large ended
  rw [same] at shown
  exact ⟨queue,shown⟩

theorem handOver_shown : ∃ final, (machine 1 id 0).run (new 0 : MPMCQueueV2 Nat Bool) handOver = some final ∧
    ∃ queue : AtomicObject (List Nat) (QueueCall Nat) (QueueResult Nat) Bool,
      AtomicObject.Shown (QueueCall.passes (2 ^ 1)) [] ⟨[],fun _ => .idle⟩ queue
        [.called true (.enqueue 5),.returned true (.enqueue true),.called false .dequeue,.returned false (.dequeue (some 5))] := by
  have ran : ∃ final, (machine 1 id 0).run (new 0 : MPMCQueueV2 Nat Bool) handOver = some final := ⟨_,rfl⟩
  have seen : ((machine 1 id 0).trace sees (new 0 : MPMCQueueV2 Nat Bool) handOver).map QueueEvent.atomic =
      [.called true (.enqueue 5),.returned true (.enqueue true),.called false .dequeue,.returned false (.dequeue (some 5))] := rfl
  obtain ⟨final,ran⟩ := ran
  obtain ⟨queue,shown⟩ := shows_same_queue (by decide) (by decide) (by decide) ran
  exact ⟨final,ran,queue,seen ▸ shown⟩

end MPMCQueueV2
end NewMuduo
