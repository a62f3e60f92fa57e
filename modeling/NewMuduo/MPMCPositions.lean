import NewMuduo.MPMCQueue
import NewMuduo.Owners

namespace NewMuduo.MPMCQueue
variable {T Tid : Type} {s : MPMCQueue T Tid} {k : Nat}

theorem cell_mod (k pos : Nat) : cell k pos = pos % 2 ^ k := Nat.and_two_pow_sub_one_eq_mod pos k

theorem cell_add (k pos : Nat) : cell k (pos + 2 ^ k) = cell k pos := by
  rw [cell_mod,cell_mod,Nat.add_mod_right]

-- The last Capacity positions before a cursor have different cells.
theorem cell_injective (same : cell k p = cell k q) (one : p < e) (two : q < e) (near : e ≤ p + 2 ^ k)
    (close : e ≤ q + 2 ^ k) : p = q := by
  have ordered : ∀ {p q : Nat}, cell k p = cell k q → p ≤ q → q < p + 2 ^ k → p = q := by
    intro p q same below short
    rw [cell_mod,cell_mod] at same
    have divides := Nat.dvd_of_mod_eq_zero (Nat.sub_mod_eq_zero_of_mod_eq same.symm)
    have none := Nat.eq_zero_of_dvd_of_lt divides (by omega)
    omega
  rcases Nat.le_total p q with below | above
  · exact ordered same below (by omega)
  · exact (ordered same.symm above (by omega)).symm

-- Each position before a cursor shares its cell with one of those.
theorem cell_latest (k : Nat) (below : p < e) :
    ∃ q, p ≤ q ∧ q < e ∧ e ≤ q + 2 ^ k ∧ cell k q = cell k p ∧ (q = p ∨ p + 2 ^ k ≤ q) := by
  by_cases near : e ≤ p + 2 ^ k
  · exact ⟨p,Nat.le_refl p,below,near,rfl,.inl rfl⟩
  · have positive : 0 < 2 ^ k := Nat.two_pow_pos k
    obtain ⟨q,above,before,close,same,_⟩ := cell_latest k (Nat.lt_of_not_le near)
    exact ⟨q,by omega,before,close,same.trans (cell_add k p),.inr above⟩
termination_by e - p

def enqOwns : Thread T → Option Nat
  | .enqWrite _ pos | .enqPublish pos => some pos
  | _ => none

def deqOwns : Thread T → Option Nat
  | .deqRead pos | .deqRelease pos _ => some pos
  | _ => none

-- What a thread without a position knows from its last loads.
def Waits (k : Nat) (s : MPMCQueue T Tid) : Thread T → Prop
  | .enqSequence _ pos => pos ≤ s.enqueuePos
  | .enqClaim _ pos => pos ≤ s.enqueuePos ∧ (2 ^ k ≤ pos → s.freed (pos - 2 ^ k) = true)
  | .deqSequence pos => pos ≤ s.dequeuePos
  | .deqClaim pos => pos ≤ s.dequeuePos ∧ s.filled pos = true
  | _ => True

-- The sequence of the cell of a position that was its last to be enqueued.
def mark (k : Nat) (s : MPMCQueue T Tid) (pos : Nat) : Nat :=
  if s.freed pos then pos + 2 ^ k else if s.filled pos then pos + 1 else pos

structure Placed (k : Nat) (s : MPMCQueue T Tid) : Prop where
  behind : s.dequeuePos ≤ s.enqueuePos
  room : s.enqueuePos ≤ s.dequeuePos + 2 ^ k
  filledBelow : ∀ p, s.filled p = true → p < s.enqueuePos
  freedBelow : ∀ p, s.freed p = true → p < s.dequeuePos
  taken : ∀ p, p < s.dequeuePos → s.filled p = true
  reused : ∀ p, p + 2 ^ k < s.enqueuePos → s.freed p = true
  lap : ∀ p, p < s.enqueuePos → s.enqueuePos ≤ p + 2 ^ k → s.sequence (cell k p) = mark k s p
  fresh : ∀ p, s.enqueuePos ≤ p → p < 2 ^ k → s.sequence (cell k p) = p
  enq : Owners enqOwns s.threads fun p => p < s.enqueuePos ∧ s.filled p = false
  deq : Owners deqOwns s.threads fun p => p < s.dequeuePos ∧ s.freed p = false
  waits : ∀ t, Waits k s (s.threads t)

theorem mark_cases (k : Nat) (s : MPMCQueue T Tid) (pos : Nat) :
    s.freed pos = true ∧ mark k s pos = pos + 2 ^ k ∨
    s.freed pos = false ∧ s.filled pos = true ∧ mark k s pos = pos + 1 ∨
    s.freed pos = false ∧ s.filled pos = false ∧ mark k s pos = pos := by
  unfold mark
  cases s.freed pos <;> cases s.filled pos <;> simp

theorem mark_same {after : MPMCQueue T Tid} (freed : after.freed p = s.freed p) (filled : after.filled p = s.filled p) :
    mark k after p = mark k s p := by
  unfold mark
  rw [freed,filled]

namespace Placed

-- A cell that is not vacated belongs to the latest lap.
theorem near (old : Placed k s) (kept : s.freed p = false) : s.enqueuePos ≤ p + 2 ^ k := by
  by_contra far
  rw [old.reused p (by omega)] at kept
  cases kept

theorem same (old : Placed k s) (equal : cell k p = cell k q) (one : p < s.enqueuePos) (two : q < s.enqueuePos)
    (kept : s.freed p = false) (left : s.freed q = false) : p = q :=
  cell_injective equal one two (old.near kept) (old.near left)

theorem sequence_above (old : Placed k s) (below : p < s.enqueuePos) :
    p ≤ s.sequence (cell k p) ∧ (s.filled p = true → p < s.sequence (cell k p)) := by
  have positive : 0 < 2 ^ k := Nat.two_pow_pos k
  obtain ⟨q,above,before,close,equal,which⟩ := cell_latest k below
  rw [← equal,old.lap q before close]
  rcases mark_cases k s q with ⟨_,value⟩ | ⟨_,_,value⟩ | ⟨_,unfilled,value⟩
  · omega
  · omega
  · refine ⟨by omega,fun filled => ?_⟩
    rcases which with rfl | later
    · rw [unfilled] at filled; cases filled
    · omega

-- The cell at the cursor of the producers, and what its sequence says.
theorem sequence_next (old : Placed k s) (wraps : 2 ^ k ≤ s.enqueuePos) :
    s.sequence (cell k s.enqueuePos) = mark k s (s.enqueuePos - 2 ^ k) := by
  have positive : 0 < 2 ^ k := Nat.two_pow_pos k
  have equal : cell k s.enqueuePos = cell k (s.enqueuePos - 2 ^ k) := by
    rw [← cell_add k (s.enqueuePos - 2 ^ k),Nat.sub_add_cancel wraps]
  rw [equal]
  exact old.lap _ (by omega) (by omega)

theorem free_claims (old : Placed k s) (large : 0 < k) (loaded : pos ≤ s.enqueuePos)
    (free : s.sequence (cell k pos) = pos) (wraps : 2 ^ k ≤ pos) : s.freed (pos - 2 ^ k) = true := by
  have two : 2 ^ 1 ≤ 2 ^ k := Nat.pow_le_pow_right (Nat.succ_pos 1) large
  rcases Nat.lt_or_eq_of_le loaded with below | rfl
  · exact old.reused _ (by omega)
  · rw [old.sequence_next wraps] at free
    rcases mark_cases k s (s.enqueuePos - 2 ^ k) with ⟨freed,_⟩ | ⟨_,_,value⟩ | ⟨_,_,value⟩
    · exact freed
    · omega
    · omega

theorem filled_claims (old : Placed k s) (loaded : pos ≤ s.dequeuePos)
    (ready : s.sequence (cell k pos) = pos + 1) : s.filled pos = true := by
  have positive : 0 < 2 ^ k := Nat.two_pow_pos k
  have behind := old.behind
  have room := old.room
  rcases Nat.lt_or_eq_of_le loaded with below | rfl
  · exact old.taken _ below
  rcases Nat.lt_or_eq_of_le behind with more | equal
  · rw [old.lap _ more room] at ready
    rcases mark_cases k s s.dequeuePos with ⟨freed,_⟩ | ⟨_,filled,_⟩ | ⟨_,_,value⟩
    · exact absurd (old.freedBelow _ freed) (Nat.lt_irrefl _)
    · exact filled
    · omega
  · rw [equal] at ready
    by_cases wraps : 2 ^ k ≤ s.enqueuePos
    · rw [old.sequence_next wraps] at ready
      rcases mark_cases k s (s.enqueuePos - 2 ^ k) with ⟨_,value⟩ | ⟨_,_,value⟩ | ⟨_,_,value⟩ <;> omega
    · rw [old.fresh _ (Nat.le_refl _) (by omega)] at ready
      omega

-- A refusal to enqueue is about a position whose cell the last lap still holds.
theorem full_waits (old : Placed k s) (loaded : pos ≤ s.enqueuePos) (refused : s.sequence (cell k pos) < pos) :
    2 ^ k ≤ pos ∧ s.freed (pos - 2 ^ k) = false := by
  rcases Nat.lt_or_eq_of_le loaded with below | rfl
  · have above := (old.sequence_above below).1
    omega
  · by_cases wraps : 2 ^ k ≤ s.enqueuePos
    · refine ⟨wraps,?_⟩
      rw [old.sequence_next wraps] at refused
      rcases mark_cases k s (s.enqueuePos - 2 ^ k) with ⟨_,value⟩ | ⟨kept,_⟩ | ⟨kept,_⟩
      · omega
      · exact kept
      · exact kept
    · rw [old.fresh _ (Nat.le_refl _) (by omega)] at refused
      omega

theorem empty_waits (old : Placed k s) (refused : s.sequence (cell k pos) < pos + 1) : s.filled pos = false := by
  cases filled : s.filled pos with
  | false => rfl
  | true =>
    have above := (old.sequence_above (old.filledBelow _ filled)).2 filled
    omega

variable [DecidableEq Tid] {t : Tid}

omit [DecidableEq Tid] in
theorem other (old : Placed k s) (data : Nat → T) (won : List T) (left : List Nat) (outcomes : List (Outcome T)) :
    Placed k {s with data := data,won := won,left := left,outcomes := outcomes} :=
  ⟨old.behind,old.room,old.filledBelow,old.freedBelow,old.taken,old.reused,old.lap,old.fresh,old.enq,old.deq,old.waits⟩

omit [DecidableEq Tid] in
theorem waits_grow {after : MPMCQueue T Tid} (enqueuePos : s.enqueuePos ≤ after.enqueuePos)
    (dequeuePos : s.dequeuePos ≤ after.dequeuePos) (filled : ∀ p, s.filled p = true → after.filled p = true)
    (freed : ∀ p, s.freed p = true → after.freed p = true) {thread : Thread T} (waits : Waits k s thread) :
    Waits k after thread := by
  cases thread with
  | enqSequence item pos => exact Nat.le_trans waits enqueuePos
  | enqClaim item pos => exact ⟨Nat.le_trans waits.1 enqueuePos,fun wraps => freed _ (waits.2 wraps)⟩
  | deqSequence pos => exact Nat.le_trans waits dequeuePos
  | deqClaim pos => exact ⟨Nat.le_trans waits.1 dequeuePos,filled _ waits.2⟩
  | _ => trivial

-- A step by t that only makes the cursors and flags grow.
theorem waits_put (old : Placed k s) {after : MPMCQueue T Tid} {next : Thread T}
    (threads : after.threads = Function.update s.threads t next)
    (enqueuePos : s.enqueuePos ≤ after.enqueuePos) (dequeuePos : s.dequeuePos ≤ after.dequeuePos)
    (filled : ∀ p, s.filled p = true → after.filled p = true)
    (freed : ∀ p, s.freed p = true → after.freed p = true) (here : Waits k after next) (u : Tid) :
    Waits k after (after.threads u) := by
  rw [threads]
  by_cases same : u = t
  · rwa [same,Function.update_self]
  · rw [Function.update_of_ne same]
    exact waits_grow enqueuePos dequeuePos filled freed (old.waits u)

-- A thread that wins and gives up nothing.
theorem quiet (old : Placed k s) (next : Thread T) (enq : enqOwns next = enqOwns (s.threads t))
    (deq : deqOwns next = deqOwns (s.threads t)) (waits : Waits k s next) : Placed k (s.put t next) := by
  have same : ∀ {thread}, Waits k s thread → Waits k (s.put t next) thread :=
    waits_grow (Nat.le_refl _) (Nat.le_refl _) (fun _ same => same) fun _ same => same
  exact ⟨old.behind,old.room,old.filledBelow,old.freedBelow,old.taken,old.reused,old.lap,old.fresh,
    old.enq.keep enq,old.deq.keep deq,
    old.waits_put rfl (Nat.le_refl _) (Nat.le_refl _) (fun _ same => same) (fun _ same => same) (same waits)⟩

theorem claimEnqueue (old : Placed k s) (here : s.threads t = .enqClaim item s.enqueuePos) (won : List T) :
    Placed k {s.put t (.enqWrite item s.enqueuePos) with enqueuePos := s.enqueuePos + 1,won := won} := by
  obtain ⟨_,vacated⟩ : Waits k s (.enqClaim item s.enqueuePos) := here ▸ old.waits t
  have behind := old.behind
  have unfilled : s.filled s.enqueuePos = false := by
    cases filled : s.filled s.enqueuePos with
    | false => rfl
    | true => exact absurd (old.filledBelow _ filled) (Nat.lt_irrefl _)
  have unfreed : s.freed s.enqueuePos = false := by
    cases freed : s.freed s.enqueuePos with
    | false => rfl
    | true => have below := old.freedBelow _ freed; omega
  refine ⟨Nat.le_succ_of_le behind,?_,?_,old.freedBelow,old.taken,?_,?_,?_,?_,?_,?_⟩
  · by_cases wraps : 2 ^ k ≤ s.enqueuePos
    · have before := old.freedBelow _ (vacated wraps)
      simp only [put]
      omega
    · simp only [put]
      omega
  · exact fun p filled => Nat.lt_succ_of_lt (old.filledBelow p filled)
  · intro p later
    rcases Nat.lt_or_eq_of_le (Nat.le_of_lt_succ later) with earlier | now
    · exact old.reused p earlier
    · have same : p = s.enqueuePos - 2 ^ k := by omega
      exact same ▸ vacated (by omega)
  · intro p below close
    rcases Nat.lt_or_eq_of_le (Nat.le_of_lt_succ below) with earlier | rfl
    · exact old.lap p earlier (Nat.le_of_succ_le close)
    · change s.sequence (cell k s.enqueuePos) = mark k s s.enqueuePos
      rw [mark,unfilled,unfreed]
      by_cases wraps : 2 ^ k ≤ s.enqueuePos
      · rw [old.sequence_next wraps,mark,vacated wraps]
        exact Nat.sub_add_cancel wraps
      · exact old.fresh _ (Nat.le_refl _) (by omega)
  · exact fun p above short => old.fresh p (Nat.le_of_succ_le above) short
  · refine old.enq.acquire ?_ (by rw [here]; rfl) rfl fun p => ?_
    · exact fun held => Nat.lt_irrefl _ held.1
    · simp only [put,Nat.lt_succ_iff_lt_or_eq]
      constructor
      · rintro ⟨earlier | now,open_⟩
        · exact .inl ⟨earlier,open_⟩
        · exact .inr now
      · rintro (⟨earlier,open_⟩ | rfl)
        · exact ⟨.inl earlier,open_⟩
        · exact ⟨.inr rfl,unfilled⟩
  · exact old.deq.keep (by rw [here]; rfl)
  · exact old.waits_put rfl (Nat.le_succ _) (Nat.le_refl _) (fun _ same => same) (fun _ same => same) trivial

theorem claimDequeue (old : Placed k s) (here : s.threads t = .deqClaim s.dequeuePos) (left : List Nat) :
    Placed k {s.put t (.deqRead s.dequeuePos) with dequeuePos := s.dequeuePos + 1,left := left} := by
  obtain ⟨_,filled⟩ : Waits k s (.deqClaim s.dequeuePos) := here ▸ old.waits t
  have more := old.filledBelow _ filled
  have unfreed : s.freed s.dequeuePos = false := by
    cases freed : s.freed s.dequeuePos with
    | false => rfl
    | true => exact absurd (old.freedBelow _ freed) (Nat.lt_irrefl _)
  refine ⟨more,Nat.le_trans old.room (Nat.add_le_add_right (Nat.le_succ _) _),old.filledBelow,?_,?_,old.reused,
    old.lap,old.fresh,old.enq.keep (by rw [here]; rfl),?_,?_⟩
  · exact fun p freed => Nat.lt_succ_of_lt (old.freedBelow p freed)
  · intro p below
    rcases Nat.lt_or_eq_of_le (Nat.le_of_lt_succ below) with earlier | rfl
    · exact old.taken p earlier
    · exact filled
  · refine old.deq.acquire ?_ (by rw [here]; rfl) rfl fun p => ?_
    · exact fun held => Nat.lt_irrefl _ held.1
    · simp only [put,Nat.lt_succ_iff_lt_or_eq]
      constructor
      · rintro ⟨earlier | now,kept⟩
        · exact .inl ⟨earlier,kept⟩
        · exact .inr now
      · rintro (⟨earlier,kept⟩ | rfl)
        · exact ⟨.inl earlier,kept⟩
        · exact ⟨.inr rfl,unfreed⟩
  · exact old.waits_put rfl (Nat.le_refl _) (Nat.le_succ _) (fun _ same => same) (fun _ same => same) trivial

omit [DecidableEq Tid] in
-- A store to the cell of a position that is in use changes no other cell that
-- lap and fresh are about.
theorem store_apart (old : Placed k s) (below : p < s.enqueuePos) (kept : s.freed p = false) (value : Nat) :
    (∀ q, q < s.enqueuePos → s.enqueuePos ≤ q + 2 ^ k → q ≠ p →
      Function.update s.sequence (cell k p) value (cell k q) = s.sequence (cell k q)) ∧
    ∀ q, s.enqueuePos ≤ q → q < 2 ^ k → Function.update s.sequence (cell k p) value (cell k q) = q := by
  refine ⟨fun q before close other => ?_,fun q after short => ?_⟩
  · refine Function.update_of_ne (fun equal => other ?_) _ _
    exact cell_injective equal before below close (old.near kept)
  · rw [Function.update_of_ne]
    · exact old.fresh q after short
    · rw [cell_mod,cell_mod,Nat.mod_eq_of_lt short,Nat.mod_eq_of_lt (by omega)]
      omega

-- One more position is marked, and none is unmarked.
theorem marked_iff {marks : Nat → Bool} (pos p : Nat) : Function.update marks pos true p = true ↔ p = pos ∨ marks p = true := by
  rw [Function.update_apply]
  by_cases same : p = pos
  · simp [same]
  · simp [same]

theorem publish (old : Placed k s) (here : s.threads t = .enqPublish pos) (outcomes : List (Outcome T)) :
    Placed k {s.put t .idle with
      sequence := Function.update s.sequence (cell k pos) (pos + 1)
      filled := Function.update s.filled pos true
      outcomes := outcomes} := by
  have owned : enqOwns (s.threads t) = some pos := by rw [here]; rfl
  obtain ⟨below,unfilled⟩ := old.enq.holds owned
  have kept : s.freed pos = false := by
    cases freed : s.freed pos with
    | false => rfl
    | true => rw [old.taken pos (old.freedBelow pos freed)] at unfilled; cases unfilled
  obtain ⟨lap,fresh⟩ := old.store_apart below kept (pos + 1)
  have grows : ∀ p, s.filled p = true → Function.update s.filled pos true p = true :=
    fun p filled => (marked_iff pos p).mpr (.inr filled)
  refine ⟨old.behind,old.room,?_,old.freedBelow,fun p before => grows p (old.taken p before),old.reused,?_,fresh,?_,?_,?_⟩
  · intro p filled
    rcases (marked_iff pos p).mp filled with rfl | before
    · exact below
    · exact old.filledBelow p before
  · intro p before close
    by_cases same : p = pos
    · simp [same,mark,put,kept]
    · refine ((lap p before close same).trans (old.lap p before close)).trans (Eq.symm ?_)
      exact mark_same rfl (Function.update_of_ne same _ _)
  · refine old.enq.release owned rfl fun p => ?_
    by_cases same : p = pos
    · simp [same]
    · simp [same,put]
  · exact old.deq.keep (by rw [here]; rfl)
  · exact old.waits_put rfl (Nat.le_refl _) (Nat.le_refl _) grows (fun _ same => same) trivial

theorem release (old : Placed k s) (here : s.threads t = .deqRelease pos out) (outcomes : List (Outcome T)) :
    Placed k {s.put t .idle with
      sequence := Function.update s.sequence (cell k pos) (pos + 2 ^ k)
      freed := Function.update s.freed pos true
      outcomes := outcomes} := by
  have owned : deqOwns (s.threads t) = some pos := by rw [here]; rfl
  obtain ⟨below,kept⟩ := old.deq.holds owned
  obtain ⟨lap,fresh⟩ := old.store_apart (Nat.lt_of_lt_of_le below old.behind) kept (pos + 2 ^ k)
  have grows : ∀ p, s.freed p = true → Function.update s.freed pos true p = true :=
    fun p freed => (marked_iff pos p).mpr (.inr freed)
  refine ⟨old.behind,old.room,old.filledBelow,?_,old.taken,fun p before => grows p (old.reused p before),?_,fresh,?_,?_,?_⟩
  · intro p freed
    rcases (marked_iff pos p).mp freed with rfl | before
    · exact below
    · exact old.freedBelow p before
  · intro p before close
    by_cases same : p = pos
    · simp [same,mark]
    · refine ((lap p before close same).trans (old.lap p before close)).trans (Eq.symm ?_)
      exact mark_same (Function.update_of_ne same _ _) rfl
  · exact old.enq.keep (by rw [here]; rfl)
  · refine old.deq.release owned rfl fun p => ?_
    by_cases same : p = pos
    · simp [same]
    · simp [same,put]
  · exact old.waits_put rfl (Nat.le_refl _) (Nat.le_refl _) (fun _ same => same) grows trivial

theorem moves (old : Placed k s) (large : 0 < k) (moved : Moves k movedFrom s t after) : Placed k after := by
  cases moved with
  | rest => exact old
  | callEnqueue item here => exact old.quiet _ (by rw [here]; rfl) (by rw [here]; rfl) trivial
  | callDequeue here => exact old.quiet _ (by rw [here]; rfl) (by rw [here]; rfl) trivial
  | enqLoad here => exact old.quiet _ (by rw [here]; rfl) (by rw [here]; rfl) (Nat.le_refl _)
  | enqFree here free =>
    have loaded := old.waits t
    rw [here] at loaded
    exact old.quiet _ (by rw [here]; rfl) (by rw [here]; rfl) ⟨loaded,old.free_claims large loaded free⟩
  | enqFull here => exact (old.quiet .idle (by rw [here]; rfl) (by rw [here]; rfl) trivial).other _ _ _ _
  | enqBehind here => exact old.quiet _ (by rw [here]; rfl) (by rw [here]; rfl) trivial
  | enqClaim here => exact old.claimEnqueue here _
  | enqRetry here => exact old.quiet _ (by rw [here]; rfl) (by rw [here]; rfl) (Nat.le_refl _)
  | enqWrite here => exact (old.quiet (.enqPublish _) (by rw [here]; rfl) (by rw [here]; rfl) trivial).other _ _ _ _
  | enqPublish here => exact old.publish here _
  | deqLoad here => exact old.quiet _ (by rw [here]; rfl) (by rw [here]; rfl) (Nat.le_refl _)
  | deqReady here ready =>
    have loaded := old.waits t
    rw [here] at loaded
    exact old.quiet _ (by rw [here]; rfl) (by rw [here]; rfl) ⟨loaded,old.filled_claims loaded ready⟩
  | deqEmpty here => exact (old.quiet .idle (by rw [here]; rfl) (by rw [here]; rfl) trivial).other _ _ _ _
  | deqBehind here => exact old.quiet _ (by rw [here]; rfl) (by rw [here]; rfl) trivial
  | deqClaim here => exact old.claimDequeue here _
  | deqRetry here => exact old.quiet _ (by rw [here]; rfl) (by rw [here]; rfl) (Nat.le_refl _)
  | deqRead here => exact (old.quiet (.deqRelease _ _) (by rw [here]; rfl) (by rw [here]; rfl) trivial).other _ _ _ _
  | deqRelease here => exact old.release here _

omit [DecidableEq Tid] in
theorem start (k : Nat) (initial : T) : Placed k (new initial : MPMCQueue T Tid) := by
  refine ⟨Nat.le_refl 0,Nat.zero_le _,?_,?_,?_,?_,?_,?_,?_,?_,fun _ => trivial⟩
  · exact fun _ found => by cases found
  · exact fun _ found => by cases found
  · exact fun p below => absurd below (Nat.not_lt_zero p)
  · exact fun p below => absurd below (Nat.not_lt_zero _)
  · exact fun p below => absurd below (Nat.not_lt_zero p)
  · intro p _ short
    rw [cell_mod,Nat.mod_eq_of_lt short]
    rfl
  · exact .none (fun p held => Nat.not_lt_zero p held.1) fun _ => rfl
  · exact .none (fun p held => Nat.not_lt_zero p held.1) fun _ => rfl

end Placed
end NewMuduo.MPMCQueue
