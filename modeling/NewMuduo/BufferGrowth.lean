import NewMuduo.BufferRuns

namespace NewMuduo.Buffer
variable {b after : Buffer} {op : Op} {data : List UInt8}

-- The operations that change the size of buffer_ only as an append does.
def Op.steady : Op → Bool
  | .ensureWritableBytes _ | .shrink _ => false
  | _ => true

-- A buffer with the largest readableBytes it has had.
structure Used where
  buffer : Buffer
  peak : Nat
  deriving DecidableEq, Repr

def Used.record (s : Used) (buffer : Buffer) : Used := ⟨buffer,max s.peak buffer.readableBytes⟩

def traffic (initialSize : Nat) : Machine Used Op where
  start s := s = ⟨new initialSize,0⟩
  next s op := if op.steady ∧ op.Contract s.buffer then (op.call s.buffer).map s.record else none

-- readFd after the first iovec is full.
def filled (b : Buffer) (data : List UInt8) : Buffer :=
  {b.copyToWrite (data.take b.writableBytes) with writerIndex := b.buffer.length}

-- The call of makeSpace that an operation makes: the buffer it is made on and
-- its argument.
def Op.asks (b : Buffer) : Op → Option (Buffer × Nat)
  | .append data => if b.writableBytes < data.length then some (b,data.length) else none
  | .readFd (.bytes data) =>
    if data.length ≤ b.writableBytes then none else some (b.filled data,data.length - b.writableBytes)
  | _ => none

-- The bytes and the cheap prepend area do not fit any more.
def Overflows (b : Buffer) (len : Nat) : Prop := b.buffer.length < kCheapPrepend + b.readableBytes + len

instance : Decidable (b.Overflows len) := inferInstanceAs (Decidable (_ < _))

def growth (b : Buffer) (len : Nat) : Nat := if b.Overflows len then b.writerIndex + len else b.buffer.length

theorem makeSpace_size (valid : b.Valid) (made : b.makeSpace len = some after) : after.buffer.length = b.growth len := by
  have ordered := valid.ordered
  have inside := valid.inside
  rw [makeSpace,writableBytes,prependableBytes] at made
  rw [growth]
  split at made
  · rename_i short
    rw [if_pos (by rw [Overflows,readableBytes]; omega)]
    cases made
    exact resize_length
  · rename_i enough
    rw [if_neg (by rw [Overflows,readableBytes]; omega)]
    have moved : (slice b.buffer b.readerIndex b.writerIndex).length = b.readableBytes := slice_length inside
    split at made
    · dsimp only at made
      split at made
      · cases made
        exact overwrite_length (by rw [moved,readableBytes]; omega)
      · cases made
    · cases made

theorem written_size (room : data.length ≤ b.writableBytes) (inside : b.writerIndex ≤ b.buffer.length)
    (wrote : (b.copyToWrite data).hasWritten data.length = some after) : after.buffer.length = b.buffer.length := by
  rw [writableBytes] at room
  rw [hasWritten] at wrote
  split at wrote
  · cases wrote
    exact overwrite_length (by omega)
  · cases wrote

theorem append_size (valid : b.Valid) (appended : b.append data = some after) :
    after.buffer.length = if b.writableBytes < data.length then b.growth data.length else b.buffer.length := by
  obtain ⟨roomy,made,kept,_,room⟩ := ensureWritableBytes_parts valid data.length
  rw [append,made] at appended
  rw [written_size room kept.inside appended]
  rw [ensureWritableBytes] at made
  split
  · rename_i short
    obtain ⟨grown,space,_⟩ := makeSpace_yields valid short
    simp only [if_pos short,space,Option.bind_eq_bind,Option.bind_some] at made
    split at made
    · cases made
      exact makeSpace_size valid space
    · cases made
  · rename_i enough
    simp only [if_neg enough,Option.bind_eq_bind,Option.bind_some,if_pos (Nat.le_of_not_lt enough)] at made
    cases made
    rfl

theorem filled_size (valid : b.Valid) : (b.filled data).buffer.length = b.buffer.length := by
  have inside := valid.inside
  refine overwrite_length ?_
  rw [List.length_take,writableBytes]
  omega

theorem filled_valid (valid : b.Valid) : (b.filled data).Valid := by
  have size : (b.filled data).buffer.length = b.buffer.length := filled_size valid
  exact ⟨Nat.le_trans valid.ordered valid.inside,Nat.le_of_eq size.symm,size.symm ▸ valid.roomy⟩

theorem filled_full (valid : b.Valid) : (b.filled data).writableBytes = 0 := by
  rw [writableBytes,filled_size valid]
  exact Nat.sub_self _

theorem retrieve_size (called : b.retrieve len = some after) : after.buffer.length = b.buffer.length := by
  rw [retrieve] at called
  split at called
  · split at called
    · cases called; rfl
    · cases called; rfl
  · cases called

theorem retrieveAsString_size (called : b.retrieveAsString len = some (bytes,after)) :
    after.buffer.length = b.buffer.length := by
  rw [retrieveAsString] at called
  split at called
  · obtain ⟨rest,got,same⟩ := Option.map_eq_some_iff.mp called
    cases same
    exact retrieve_size got
  · cases called

theorem prepend_size (valid : b.Valid) (called : b.prepend data = some after) : after.buffer.length = b.buffer.length := by
  have ordered := valid.ordered
  have inside := valid.inside
  rw [prepend] at called
  split at called
  · rename_i bound
    rw [prependableBytes] at bound
    cases called
    exact overwrite_length (by omega)
  · cases called

theorem readFd_size (valid : b.Valid) (called : b.readFd (.bytes data) = some after) : after.buffer.length =
    if data.length ≤ b.writableBytes then b.buffer.length else (b.filled data).growth (data.length - b.writableBytes) := by
  simp only [readFd] at called
  split
  · rename_i short
    rw [if_pos short,List.take_of_length_le short] at called
    cases called
    rw [writableBytes] at short
    have inside := valid.inside
    exact overwrite_length (by omega)
  · rename_i long
    rw [if_neg long] at called
    rw [append_size (b := b.filled data) (filled_valid valid) called,List.length_drop,filled_full valid,if_pos (by omega)]

-- No operation changes the size but through the makeSpace it asks for.
theorem Op.call_size (valid : b.Valid) (steady : op.steady = true) (met : op.Contract b) (called : op.call b = some after) :
    after.buffer.length = (op.asks b).elim b.buffer.length fun ask => ask.1.growth ask.2 := by
  cases op with
  | append data =>
    rw [append_size valid called,Op.asks]
    split
    · rfl
    · rfl
  | readFd result =>
    cases result with
    | error => cases called; rfl
    | bytes data =>
      rw [readFd_size valid called,Op.asks]
      split
      · rfl
      · rfl
  | prepend data => exact prepend_size valid called
  | prependInt64 x => exact prepend_size valid called
  | prependInt32 x => exact prepend_size valid called
  | prependInt16 x => exact prepend_size valid called
  | prependInt8 x => exact prepend_size valid called
  | retrieve len => exact retrieve_size called
  | retrieveInt64 => exact retrieve_size called
  | retrieveInt32 => exact retrieve_size called
  | retrieveInt16 => exact retrieve_size called
  | retrieveInt8 => exact retrieve_size called
  | retrieveUntil offset =>
    simp only [Op.call,Buffer.retrieveUntil] at called
    split at called
    · exact retrieve_size called
    · cases called
  | retrieveAll => cases called; rfl
  | retrieveAsString len =>
    obtain ⟨⟨bytes,rest⟩,got,same⟩ := Option.map_eq_some_iff.mp called
    cases same
    exact retrieveAsString_size got
  | retrieveAllAsString =>
    obtain ⟨⟨bytes,rest⟩,got,same⟩ := Option.map_eq_some_iff.mp called
    cases same
    exact retrieveAsString_size got
  | hasWritten data => exact written_size met valid.inside called
  | unwrite len =>
    simp only [Op.call,Buffer.unwrite] at called
    split at called
    · cases called; rfl
    · cases called
  | ensureWritableBytes len => cases steady
  | shrink reserve => cases steady

-- The bytes that will be readable are those of the buffer and those to come.
theorem asks_parts (valid : b.Valid) (asked : op.asks b = some (before,len)) :
    before.Valid ∧ before.buffer.length = b.buffer.length ∧ before.writableBytes < len ∧
      before.readableBytes + len = (op.spec b.readable).length := by
  have ordered := valid.ordered
  have inside := valid.inside
  have readable := readable_length valid
  cases op with
  | append data =>
    simp only [Op.asks] at asked
    split at asked
    · rename_i short
      cases asked
      exact ⟨valid,rfl,short,by rw [Op.spec,List.length_append,readable]⟩
    · cases asked
  | readFd result =>
    cases result with
    | error => cases asked
    | bytes data =>
      simp only [Op.asks] at asked
      split at asked
      · cases asked
      · rename_i long
        cases asked
        refine ⟨filled_valid valid,filled_size valid,by rw [filled_full valid]; omega,?_⟩
        rw [Op.spec,List.length_append,readable,ReadResult.data]
        change b.buffer.length - b.readerIndex + _ = _
        rw [readableBytes]
        rw [writableBytes] at long ⊢
        omega
  | _ => cases asked

-- makeSpace resizes from writerIndex_, but no reader index can be so high that
-- the new size is more than twice the bytes it is made for.
theorem growth_bound (valid : b.Valid) (len : Nat) :
    b.growth len ≤ max b.buffer.length (kCheapPrepend + 2 * (b.readableBytes + len)) := by
  have ordered := valid.ordered
  have inside := valid.inside
  rw [growth]
  split
  · rename_i beyond
    rw [Overflows,readableBytes] at beyond
    rw [readableBytes]
    omega
  · exact Nat.le_max_left _ _

-- What holds of a buffer and its peak in every run.
structure Bounded (initialSize : Nat) (s : Used) : Prop where
  valid : s.buffer.Valid
  peak : s.buffer.readableBytes ≤ s.peak
  size : s.buffer.buffer.length ≤ max (kCheapPrepend + initialSize) (kCheapPrepend + 2 * s.peak)

theorem traffic_parts {initialSize : Nat} {s next : Used} (taken : (traffic initialSize).next s op = some next) :
    op.steady = true ∧ op.Contract s.buffer ∧ ∃ after, op.call s.buffer = some after ∧ next = s.record after := by
  simp only [traffic] at taken
  split at taken
  · rename_i able
    obtain ⟨after,called,same⟩ := Option.map_eq_some_iff.mp taken
    exact ⟨able.1,able.2,after,called,same.symm⟩
  · cases taken

theorem traffic_preserves (initialSize : Nat) : (traffic initialSize).Preserves (fun _ _ => True) (Bounded initialSize) where
  start := by
    intro s given
    cases given
    refine ⟨new_valid initialSize,Nat.le_refl _,?_⟩
    simp [new]
  step := by
    intro s op next old _ taken
    obtain ⟨steady,met,after,called,rfl⟩ := traffic_parts taken
    obtain ⟨kept,contents⟩ := (Op.call_yields old.valid op met).of_eq called
    have readable : after.readableBytes = (op.spec s.buffer.readable).length := by
      rw [← readable_length kept,contents]
    have bound := old.size
    refine ⟨kept,Nat.le_max_right _ _,?_⟩
    simp only [Used.record]
    rw [Op.call_size old.valid steady met called]
    cases asked : op.asks s.buffer with
    | none =>
      change s.buffer.buffer.length ≤ _
      omega
    | some ask =>
      obtain ⟨before,same,_,whole⟩ := asks_parts old.valid asked
      have grown := growth_bound before ask.2
      change ask.1.growth ask.2 ≤ _
      rw [whole,← readable,same] at grown
      omega

theorem growth_iff (short : b.writableBytes < len) : b.growth len ≠ b.buffer.length ↔ b.Overflows len := by
  rw [writableBytes] at short
  rw [growth]
  split
  · rename_i beyond
    exact iff_of_true (by omega) beyond
  · rename_i fits
    exact iff_of_false (fun changed => changed rfl) fits

-- buffer_ is no larger than the peak backlog makes it, and it grows only in a
-- makeSpace that cannot make room by moving the readable bytes down.
theorem size_follows_peak {initialSize : Nat} {s : Used} (path : (traffic initialSize).Reached s) :
    s.buffer.readableBytes ≤ s.peak ∧
    s.buffer.buffer.length ≤ max (kCheapPrepend + initialSize) (kCheapPrepend + 2 * s.peak) ∧
    ∀ op next, (traffic initialSize).next s op = some next →
      (∀ asked len, op.asks s.buffer = some (asked,len) → ∃ after, asked.makeSpace len = some after ∧
        next.buffer.buffer.length = after.buffer.length) ∧
      (next.buffer.buffer.length ≠ s.buffer.buffer.length ↔ ∃ asked len, op.asks s.buffer = some (asked,len) ∧
        asked.buffer.length < kCheapPrepend + asked.readableBytes + len) := by
  have old := (traffic_preserves initialSize).reached path
  refine ⟨old.peak,old.size,fun op next taken => ?_⟩
  obtain ⟨steady,met,after,called,rfl⟩ := traffic_parts taken
  have size := Op.call_size old.valid steady met called
  refine ⟨fun asked len asks => ?_,?_⟩
  · obtain ⟨before,_,short,_⟩ := asks_parts old.valid asks
    obtain ⟨roomy,made,_⟩ := makeSpace_yields before short
    rw [asks] at size
    exact ⟨roomy,made,size.trans (makeSpace_size before made).symm⟩
  · cases asks : op.asks s.buffer with
    | none =>
      rw [asks] at size
      exact iff_of_false (fun changed => changed size) (by rintro ⟨_,_,found,_⟩; cases found)
    | some ask =>
      obtain ⟨before,same,short,_⟩ := asks_parts old.valid asks
      rw [asks] at size
      have changed : (s.record after).buffer.buffer.length ≠ s.buffer.buffer.length ↔ ask.1.Overflows ask.2 := by
        rw [← same]
        exact size ▸ growth_iff short
      rw [changed]
      constructor
      · exact fun beyond => ⟨ask.1,ask.2,rfl,beyond⟩
      · rintro ⟨_,_,found,beyond⟩
        cases found
        exact beyond

-- A read that fills the buffer and extrabuf after a partial retrieve: one of
-- three operations makes space, and the size stays under twice the peak.
theorem size_follows_peak_twice :
    ∃ s : Used, (traffic 4).run ⟨new 4,0⟩ [.append [1,2,3,4,5,6],.retrieve 5,.readFd (.bytes [7,8,9,10,11,12])] = some s ∧
      s.peak = 7 ∧ s.buffer.buffer.length ≤ 22 ∧
      ∀ next, (traffic 4).next s (.append [13]) = some next → next.buffer.buffer.length = s.buffer.buffer.length := by
  have found : ((traffic 4).run ⟨new 4,0⟩ [.append [1,2,3,4,5,6],.retrieve 5,.readFd (.bytes [7,8,9,10,11,12])]).map
      (fun s => (s.peak,(Op.append [13]).asks s.buffer |>.map fun ask => decide (ask.1.Overflows ask.2))) =
      some (7,some false) := by decide +kernel
  obtain ⟨s,ran,parts⟩ := Option.map_eq_some_iff.mp found
  simp only [Prod.mk.injEq,Option.map_eq_some_iff,decide_eq_false_iff_not] at parts
  obtain ⟨peak,ask,asks,fits⟩ := parts
  have path : (traffic 4).Reached s := Machine.Reached.run (.start rfl) ran
  obtain ⟨_,size,steps⟩ := size_follows_peak path
  refine ⟨s,ran,peak,?_,fun next taken => ?_⟩
  · rw [peak] at size
    exact size
  · by_contra changed
    obtain ⟨asked,len,found,beyond⟩ := (steps _ next taken).2.mp changed
    cases Option.some.inj (asks.symm.trans found)
    exact fits beyond

end NewMuduo.Buffer
