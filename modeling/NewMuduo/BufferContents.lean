import NewMuduo.Buffer
import NewMuduo.Machine

namespace NewMuduo.Buffer
variable {b : Buffer}

structure Valid (b : Buffer) : Prop where
  ordered : b.readerIndex ≤ b.writerIndex
  inside : b.writerIndex ≤ b.buffer.length
  roomy : kCheapPrepend ≤ b.buffer.length

-- No assert fails, the indices stay ordered, and the readable bytes are these.
def Yields (result : Option Buffer) (contents : List UInt8) : Prop :=
  ∃ after, result = some after ∧ after.Valid ∧ after.readable = contents

theorem Yields.of_eq (yields : Yields result contents) (same : result = some after) :
    after.Valid ∧ after.readable = contents := by
  obtain ⟨found,got,valid,holds⟩ := yields
  cases Option.some.inj (got.symm.trans same)
  exact ⟨valid,holds⟩

theorem new_valid (initialSize : Nat) : (new initialSize).Valid :=
  ⟨Nat.le_refl _,by simp [new],by simp [new]⟩

theorem new_readable (initialSize : Nat) : (new initialSize).readable = [] := slice_same

theorem readable_length (valid : b.Valid) : b.readable.length = b.readableBytes := slice_length valid.inside

theorem peek_readable (valid : b.Valid) (bound : len ≤ b.readableBytes) : b.peek len = b.readable.take len := by
  have ordered := valid.ordered
  rw [readableBytes] at bound
  rw [peek,readable,slice_take (show b.readerIndex + len ≤ b.writerIndex by omega),Nat.add_sub_cancel_left]

theorem retrieveAll_yields (valid : b.Valid) : Yields (some b.retrieveAll) [] :=
  ⟨_,rfl,⟨Nat.le_refl _,valid.roomy,valid.roomy⟩,slice_same⟩

theorem retrieve_yields (valid : b.Valid) (bound : len ≤ b.readableBytes) :
    Yields (b.retrieve len) (b.readable.drop len) := by
  have ordered := valid.ordered
  rw [retrieve,if_pos bound]
  split
  · rename_i part
    rw [readableBytes] at part
    refine ⟨_,rfl,⟨?_,valid.inside,valid.roomy⟩,?_⟩
    · change b.readerIndex + len ≤ b.writerIndex
      omega
    · change slice b.buffer (b.readerIndex + len) b.writerIndex = _
      rw [slice_drop (Nat.le_add_right b.readerIndex len) (by omega),Nat.add_sub_cancel_left]
      rfl
  · rename_i whole
    have ended : b.readable.drop len = [] :=
      List.drop_eq_nil_of_le (by rw [readable_length valid]; omega)
    rw [ended]
    exact retrieveAll_yields valid

theorem retrieveUntil_yields (valid : b.Valid) (bound : offset ≤ b.readableBytes) :
    Yields (b.retrieveUntil (b.readerIndex + offset)) (b.readable.drop offset) := by
  have ordered := valid.ordered
  have inside : b.readerIndex ≤ b.readerIndex + offset ∧ b.readerIndex + offset ≤ b.writerIndex := by
    rw [readableBytes] at bound; omega
  rw [retrieveUntil,if_pos inside,Nat.add_sub_cancel_left]
  exact retrieve_yields valid bound

theorem retrieveAsString_parts (valid : b.Valid) (bound : len ≤ b.readableBytes) :
    ∃ after, b.retrieveAsString len = some (b.readable.take len,after) ∧
      after.Valid ∧ after.readable = b.readable.drop len := by
  obtain ⟨after,got,kept,rest⟩ := retrieve_yields valid bound
  exact ⟨after,by rw [retrieveAsString,if_pos bound,got,← peek_readable valid bound]; rfl,kept,rest⟩

-- The compaction branch is taken only when the free bytes on both sides hold
-- len and the cheap prepend area, while those on the right alone do not hold
-- len; so more than the prepend area is free on the left.
theorem makeSpace_yields (valid : b.Valid) (short : b.writableBytes < len) :
    ∃ after, b.makeSpace len = some after ∧ after.Valid ∧ after.readable = b.readable ∧ len ≤ after.writableBytes := by
  have ordered := valid.ordered
  have inside := valid.inside
  have roomy := valid.roomy
  rw [writableBytes] at short
  rw [makeSpace,writableBytes,prependableBytes]
  split
  · have grown : b.writerIndex + len ≤ (resize b.buffer (b.writerIndex + len) 0).length :=
      Nat.le_of_eq resize_length.symm
    refine ⟨_,rfl,⟨ordered,?_,?_⟩,?_,?_⟩
    · exact Nat.le_trans (Nat.le_add_right _ _) grown
    · change kCheapPrepend ≤ (resize b.buffer (b.writerIndex + len) 0).length
      rw [resize_length]; omega
    · exact slice_resize inside (Nat.le_add_right _ _)
    · change len ≤ (resize b.buffer (b.writerIndex + len) 0).length - b.writerIndex
      rw [resize_length]; omega
  · rename_i enough
    have right : kCheapPrepend < b.readerIndex := by omega
    have moved : (slice b.buffer b.readerIndex b.writerIndex).length = b.readableBytes := slice_length inside
    have fits : kCheapPrepend + (slice b.buffer b.readerIndex b.writerIndex).length ≤ b.buffer.length := by
      rw [moved,readableBytes]; omega
    have size := overwrite_length fits
    rw [if_pos right]
    simp only [readableBytes,Nat.add_sub_cancel_left,if_true]
    refine ⟨_,rfl,⟨Nat.le_add_right _ _,?_,?_⟩,?_,?_⟩
    · change kCheapPrepend + (b.writerIndex - b.readerIndex) ≤ (overwrite _ _ _).length
      rw [size]; omega
    · change kCheapPrepend ≤ (overwrite _ _ _).length
      rw [size]; exact roomy
    · change slice (overwrite _ _ _) kCheapPrepend (kCheapPrepend + (b.writerIndex - b.readerIndex)) = _
      rw [← show (slice b.buffer b.readerIndex b.writerIndex).length = b.writerIndex - b.readerIndex from moved]
      exact slice_overwrite roomy
    · change len ≤ (overwrite _ _ _).length - (kCheapPrepend + (b.writerIndex - b.readerIndex))
      rw [size]; omega

theorem ensureWritableBytes_parts (valid : b.Valid) (len : Nat) :
    ∃ after, b.ensureWritableBytes len = some after ∧ after.Valid ∧
      after.readable = b.readable ∧ len ≤ after.writableBytes := by
  rw [ensureWritableBytes]
  by_cases short : b.writableBytes < len
  · obtain ⟨after,made,kept,same,room⟩ := makeSpace_yields valid short
    exact ⟨after,by simp [short,made,room],kept,same,room⟩
  · exact ⟨b,by simp [short,Nat.le_of_not_lt short],valid,rfl,Nat.le_of_not_lt short⟩

-- hasWritten after the writable area was filled from its start.
theorem written_yields (valid : b.Valid) (room : data.length ≤ b.writableBytes) :
    Yields ((b.copyToWrite data).hasWritten data.length) (b.readable ++ data) := by
  have ordered := valid.ordered
  have fits : b.writerIndex + data.length ≤ b.buffer.length := by
    have inside := valid.inside
    rw [writableBytes] at room; omega
  have size : (overwrite b.buffer b.writerIndex data).length = b.buffer.length := overwrite_length fits
  have asserted : data.length ≤ (b.copyToWrite data).writableBytes := by
    change data.length ≤ (overwrite _ _ _).length - b.writerIndex
    rw [size]; omega
  rw [hasWritten,if_pos asserted]
  refine ⟨_,rfl,⟨Nat.le_trans ordered (Nat.le_add_right _ _),?_,?_⟩,?_⟩
  · change b.writerIndex + data.length ≤ (overwrite _ _ _).length
    rw [size]; exact fits
  · change kCheapPrepend ≤ (overwrite _ _ _).length
    rw [size]; exact valid.roomy
  · change slice (overwrite _ _ _) b.readerIndex (b.writerIndex + data.length) = _
    rw [← slice_append ordered (Nat.le_add_right _ _),slice_overwrite_before (Nat.le_refl _) valid.inside,
      slice_overwrite valid.inside]
    rfl

theorem append_yields (valid : b.Valid) (data : List UInt8) : Yields (b.append data) (b.readable ++ data) := by
  obtain ⟨after,made,kept,same,room⟩ := ensureWritableBytes_parts valid data.length
  rw [append,made,← same]
  exact written_yields kept room

theorem unwrite_yields (valid : b.Valid) (bound : len ≤ b.readableBytes) :
    Yields (b.unwrite len) (b.readable.take (b.readable.length - len)) := by
  have ordered := valid.ordered
  have inside := valid.inside
  rw [unwrite,if_pos bound,readable_length valid]
  rw [readableBytes] at bound ⊢
  refine ⟨_,rfl,⟨?_,?_,valid.roomy⟩,?_⟩
  · change b.readerIndex ≤ b.writerIndex - len
    omega
  · change b.writerIndex - len ≤ b.buffer.length
    omega
  · change slice b.buffer b.readerIndex (b.writerIndex - len) = _
    rw [slice_take (Nat.sub_le b.writerIndex len),Nat.sub_right_comm]
    rfl

theorem prepend_yields (valid : b.Valid) (bound : data.length ≤ b.prependableBytes) :
    Yields (b.prepend data) (data ++ b.readable) := by
  have ordered := valid.ordered
  have inside := valid.inside
  rw [prepend,if_pos bound]
  rw [prependableBytes] at bound
  have back : b.readerIndex - data.length + data.length = b.readerIndex := by omega
  have size : (overwrite b.buffer (b.readerIndex - data.length) data).length = b.buffer.length :=
    overwrite_length (by omega)
  refine ⟨_,rfl,⟨?_,?_,?_⟩,?_⟩
  · change b.readerIndex - data.length ≤ b.writerIndex
    omega
  · change b.writerIndex ≤ (overwrite _ _ _).length
    rw [size]; exact inside
  · change kCheapPrepend ≤ (overwrite _ _ _).length
    rw [size]; exact valid.roomy
  · change slice (overwrite _ _ _) (b.readerIndex - data.length) b.writerIndex = _
    have low : b.readerIndex - data.length ≤ b.readerIndex := Nat.sub_le _ _
    have placed : slice (overwrite b.buffer (b.readerIndex - data.length) data) (b.readerIndex - data.length)
        (b.readerIndex - data.length + data.length) = data := slice_overwrite (by omega)
    rw [back] at placed
    rw [← slice_append low ordered,placed,
      slice_overwrite_after (by omega) (by omega)]
    rfl

theorem shrink_yields (valid : b.Valid) (reserve : Nat) : Yields (b.shrink reserve) b.readable := by
  obtain ⟨other,made,kept,same,_⟩ :=
    ensureWritableBytes_parts (new_valid kInitialSize) (b.readableBytes + reserve)
  have whole : b.peek b.readableBytes = b.readable := by
    rw [peek_readable valid (Nat.le_refl _),← readable_length valid,List.take_length]
  have moved := append_yields kept (b.peek b.readableBytes)
  rw [same,new_readable,List.nil_append,whole] at moved
  rw [shrink,made,whole]
  exact moved

def ReadResult.data : ReadResult → List UInt8
  | .bytes data => data
  | .error => []

-- What the kernel may answer to the readv of readFd.
def ReadResult.Fits (b : Buffer) (result : ReadResult) : Prop := result.data.length ≤ b.iovecBytes

instance : Decidable (ReadResult.Fits b result) := inferInstanceAs (Decidable (_ ≤ _))

theorem readFd_yields (valid : b.Valid) (result : ReadResult) (fits : result.Fits b) :
    Yields (b.readFd result) (b.readable ++ result.data) := by
  cases result with
  | error => exact ⟨b,rfl,valid,(List.append_nil _).symm⟩
  | bytes data =>
    have inside := valid.inside
    simp only [readFd,ReadResult.data]
    split
    · rename_i short
      rw [List.take_of_length_le short]
      have written := written_yields valid short
      rwa [hasWritten,if_pos] at written
      change data.length ≤ (overwrite _ _ _).length - b.writerIndex
      rw [writableBytes] at short
      rw [overwrite_length (by omega)]
      exact short
    · rename_i long
      -- The first iovec is full, so the writer index goes to the end of buffer_
      -- and the rest comes from extrabuf.
      have front : (data.take b.writableBytes).length = b.writableBytes := by
        rw [List.length_take]; omega
      have full := written_yields valid (Nat.le_of_eq front)
      have exact_size : (overwrite b.buffer b.writerIndex (data.take b.writableBytes)).length = b.buffer.length :=
        overwrite_length (by rw [front,writableBytes]; omega)
      have filled : (b.copyToWrite (data.take b.writableBytes)).hasWritten (data.take b.writableBytes).length =
          some {b.copyToWrite (data.take b.writableBytes) with writerIndex := b.buffer.length} := by
        rw [front,hasWritten,if_pos]
        · have whole : b.writerIndex + b.writableBytes = b.buffer.length := by rw [writableBytes]; omega
          change some {b.copyToWrite (data.take b.writableBytes) with
            writerIndex := b.writerIndex + b.writableBytes} = _
          rw [whole]
        · change b.writableBytes ≤ (overwrite _ _ _).length - b.writerIndex
          rw [exact_size]; exact Nat.le_refl _
      obtain ⟨kept,contents⟩ := full.of_eq filled
      have rest := append_yields kept (data.drop b.writableBytes)
      rw [contents,List.append_assoc,List.take_append_drop] at rest
      exact rest

end NewMuduo.Buffer
