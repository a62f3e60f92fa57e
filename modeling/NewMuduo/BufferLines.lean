import NewMuduo.BufferRuns
import NewMuduo.Separators

namespace NewMuduo.Buffer
variable {b : Buffer}

def kCRLF : List UInt8 := [13,10]

-- std::search from peek() to beginWrite(), which is returned when there is none.
def findCRLF (b : Buffer) : Option Nat :=
  let crlf := b.readerIndex + search kCRLF b.readable
  if crlf = b.writerIndex then none else some crlf

-- The caller's loop: while there is a CR LF, the bytes before it are a line and
-- retrieveUntil goes past it. It has no result when an assert fails or the fuel
-- runs out.
def takeLines : Nat → Buffer → Option (List (List UInt8) × Buffer)
  | 0,_ => none
  | fuel + 1,b =>
    match b.findCRLF with
    | none => some ([],b)
    | some crlf => do
      let line := b.peek (crlf - b.readerIndex)
      let rest ← takeLines fuel (← b.retrieveUntil (crlf + 2))
      some (line :: rest.1,rest.2)

-- A chunk arrives by append or by readFd.
inductive Chunk where
  | append (data : List UInt8)
  | readFd (result : ReadResult)
  deriving DecidableEq, Repr

def Chunk.op : Chunk → Op
  | .append data => .append data
  | .readFd result => .readFd result

def Chunk.data : Chunk → List UInt8
  | .append data => data
  | .readFd result => result.data

-- A reader of lines: its buffer and the lines it has taken.
structure Reader where
  buffer : Buffer
  lines : List (List UInt8)
  deriving DecidableEq, Repr

-- After each chunk the loop runs until it ends.
def reading : Machine Reader Chunk where
  start s := s.buffer.Valid ∧ s.buffer.readable = [] ∧ s.lines = []
  next s chunk :=
    if chunk.op.Contract s.buffer then do
      let b ← chunk.op.call s.buffer
      let rest ← takeLines (b.readableBytes + 1) b
      some ⟨rest.2,s.lines ++ rest.1⟩
    else none

theorem findCRLF_parts (valid : b.Valid) :
    (search kCRLF b.readable = b.readable.length ∧ b.findCRLF = none) ∨
    (search kCRLF b.readable < b.readable.length ∧ b.findCRLF = some (b.readerIndex + search kCRLF b.readable)) := by
  have ordered := valid.ordered
  have length := readable_length valid
  rw [readableBytes] at length
  rcases Nat.lt_or_eq_of_le (search_le kCRLF b.readable) with inside | absent
  · exact .inr ⟨inside,by rw [findCRLF]; exact if_neg (by omega)⟩
  · exact .inl ⟨absent,by rw [findCRLF]; exact if_pos (by omega)⟩

-- One turn of the loop: the CR LF is inside the readable bytes, so
-- retrieveUntil passes its asserts and leaves what is behind it.
theorem line_yields (valid : b.Valid) (inside : search kCRLF b.readable < b.readable.length) :
    b.peek (b.readerIndex + search kCRLF b.readable - b.readerIndex) = b.readable.take (search kCRLF b.readable) ∧
    Yields (b.retrieveUntil (b.readerIndex + search kCRLF b.readable + 2)) (b.readable.drop (search kCRLF b.readable + 2)) := by
  have room : search kCRLF b.readable + 2 ≤ b.readable.length := search_room inside
  rw [readable_length valid] at room inside
  rw [Nat.add_sub_cancel_left,Nat.add_assoc]
  exact ⟨peek_readable valid (Nat.le_of_lt inside),retrieveUntil_yields valid room⟩

-- The loop ends before its fuel does, since every turn retrieves two bytes.
theorem takeLines_yields {fuel : Nat} (valid : b.Valid) (enough : b.readableBytes < fuel) :
    ∃ rest, takeLines fuel b = some ((cut kCRLF b.readable).1,rest) ∧ rest.Valid ∧
      rest.readable = (cut kCRLF b.readable).2 := by
  induction fuel generalizing b with
  | zero => cases enough
  | succ fuel ih =>
    rw [takeLines]
    rcases findCRLF_parts valid with ⟨absent,ended⟩ | ⟨inside,found⟩
    · rw [ended,cut_none absent]
      exact ⟨b,rfl,valid,rfl⟩
    · obtain ⟨line,after,retrieved,kept,contents⟩ := line_yields valid inside
      have fewer : after.readableBytes < fuel := by
        rw [← readable_length kept,contents,List.length_drop]
        rw [readable_length valid] at inside ⊢
        omega
      obtain ⟨rest,taken,whole,left⟩ := ih kept fewer
      rw [contents] at taken left
      rw [found,cut_some (by decide) inside]
      refine ⟨rest,?_,whole,left⟩
      simp only [retrieved,taken,line,Option.bind_eq_bind,Option.bind_some]
      rfl

theorem Chunk.op_spec (chunk : Chunk) (contents : List UInt8) : chunk.op.spec contents = contents ++ chunk.data := by
  cases chunk with
  | append data => rfl
  | readFd result => rfl

-- Whatever arrives, the loop after it ends with every assert passed.
theorem reading_yields {s : Reader} {chunk : Chunk} (valid : s.buffer.Valid) (met : chunk.op.Contract s.buffer) :
    ∃ after, reading.next s chunk = some after ∧ after.buffer.Valid ∧
      after.lines = s.lines ++ (cut kCRLF (s.buffer.readable ++ chunk.data)).1 ∧
      after.buffer.readable = (cut kCRLF (s.buffer.readable ++ chunk.data)).2 := by
  obtain ⟨b,called,kept,contents⟩ := Op.call_yields valid chunk.op met
  rw [chunk.op_spec] at contents
  obtain ⟨rest,taken,whole,left⟩ := takeLines_yields kept (Nat.lt_succ_self _)
  rw [contents] at taken left
  refine ⟨⟨rest,s.lines ++ (cut kCRLF (s.buffer.readable ++ chunk.data)).1⟩,?_,whole,rfl,left⟩
  simp only [reading,if_pos met,called,taken,Option.bind_eq_bind,Option.bind_some]

-- What the reader has after some bytes, however they arrived.
structure Cut (whole : List UInt8) (s : Reader) : Prop where
  valid : s.buffer.Valid
  lines : s.lines = (cut kCRLF whole).1
  left : s.buffer.readable = (cut kCRLF whole).2

theorem Cut.step {whole : List UInt8} {s : Reader} {chunk : Chunk} {after : Reader} (old : Cut whole s)
    (taken : reading.next s chunk = some after) : Cut (whole ++ chunk.data) after := by
  have met : chunk.op.Contract s.buffer := by
    by_contra refused
    simp only [reading,if_neg refused] at taken
    cases taken
  obtain ⟨_,found,kept,lines,left⟩ := reading_yields old.valid met
  cases Option.some.inj (found.symm.trans taken)
  rw [old.left] at lines left
  refine ⟨kept,?_,?_⟩
  · rw [lines,old.lines,cut_append (by decide) whole]
  · rw [left,cut_append (by decide) whole]

theorem Cut.run {whole : List UInt8} {s final : Reader} {chunks : List Chunk} (old : Cut whole s)
    (ran : reading.run s chunks = some final) : Cut (whole ++ (chunks.map Chunk.data).flatten) final := by
  induction chunks generalizing whole s with
  | nil =>
    cases Option.some.inj ran
    rw [List.map_nil,List.flatten_nil,List.append_nil]
    exact old
  | cons chunk rest ih =>
    obtain ⟨middle,taken,ran⟩ := Machine.run_cons_parts ran
    rw [List.map_cons,List.flatten_cons,← List.append_assoc]
    exact ih (old.step taken) ran

-- The lines and the rest depend on the bytes alone, not on where they were cut
-- into chunks: they are those of the whole sequence.
theorem lines_independent_of_chunks {s final : Reader} {chunks : List Chunk} (origin : reading.start s)
    (ran : reading.run s chunks = some final) :
    let whole := (chunks.map Chunk.data).flatten
    final.lines = (cut kCRLF whole).1 ∧ final.buffer.readable = (cut kCRLF whole).2 ∧
    (∃ once, reading.run s [.append whole] = some once ∧ final.lines = once.lines ∧
      final.buffer.readable = once.buffer.readable) ∧
    ∀ chunk : Chunk, chunk.op.Contract final.buffer → (reading.next final chunk).isSome ∧
      ∃ b, chunk.op.call final.buffer = some b ∧ ∀ fuel, b.readableBytes < fuel → (takeLines fuel b).isSome := by
  obtain ⟨valid,empty,none⟩ := origin
  have first : Cut [] s := ⟨valid,none,empty⟩
  have all := first.run ran
  rw [List.nil_append] at all
  have met : (Chunk.append (chunks.map Chunk.data).flatten).op.Contract s.buffer := trivial
  obtain ⟨once,taken,_⟩ := reading_yields valid met
  have atOnce := first.step taken
  refine ⟨all.lines,all.left,⟨once,?_,all.lines.trans atOnce.lines.symm,all.left.trans atOnce.left.symm⟩,?_⟩
  · exact (Machine.run_cons taken).trans rfl
  · intro chunk met
    obtain ⟨b,called,kept,_⟩ := Op.call_yields all.valid chunk.op met
    obtain ⟨_,next,_⟩ := reading_yields all.valid met
    refine ⟨by rw [next]; rfl,b,called,fun fuel enough => ?_⟩
    obtain ⟨_,ended,_⟩ := takeLines_yields kept enough
    rw [ended]
    rfl

-- A CR and its LF in different chunks, and a line that ends at the write index.
theorem lines_of_split_separator :
    ∃ final : Reader, reading.run ⟨new 4,[]⟩ [.append [1,13],.readFd (.bytes [10,13]),.append [13,10],.readFd (.bytes [2])] = some final ∧
      final.lines = [[1],[13]] ∧ final.buffer.readable = [2] := by
  obtain ⟨final,ran⟩ := Option.isSome_iff_exists.mp (show (reading.run ⟨new 4,[]⟩
    [.append [1,13],.readFd (.bytes [10,13]),.append [13,10],.readFd (.bytes [2])]).isSome by decide +kernel)
  obtain ⟨lines,left,_⟩ := lines_independent_of_chunks ⟨new_valid 4,new_readable 4,rfl⟩ ran
  exact ⟨final,ran,lines.trans (by decide),left.trans (by decide)⟩

end NewMuduo.Buffer
