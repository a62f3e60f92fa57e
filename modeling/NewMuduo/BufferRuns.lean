import NewMuduo.BufferContents
import Mathlib.Logic.Function.Basic

namespace NewMuduo.Buffer
variable {b : Buffer} {op : Op} {ι : Type} [DecidableEq ι]

-- The member functions that change a buffer. retrieveUntil takes its pointer
-- as an offset from peek(); hasWritten names the bytes its caller put there.
inductive Op where
  | append (data : List UInt8)
  | prepend (data : List UInt8)
  | prependInt64 (x : BitVec 64)
  | prependInt32 (x : BitVec 32)
  | prependInt16 (x : BitVec 16)
  | prependInt8 (x : BitVec 8)
  | retrieve (len : Nat)
  | retrieveUntil (offset : Nat)
  | retrieveInt64
  | retrieveInt32
  | retrieveInt16
  | retrieveInt8
  | retrieveAll
  | retrieveAsString (len : Nat)
  | retrieveAllAsString
  | ensureWritableBytes (len : Nat)
  | hasWritten (data : List UInt8)
  | unwrite (len : Nat)
  | shrink (reserve : Nat)
  | readFd (result : ReadResult)
  deriving DecidableEq, Repr

def Op.call (b : Buffer) : Op → Option Buffer
  | .append data => b.append data
  | .prepend data => b.prepend data
  | .prependInt64 x => b.prependInt64 x
  | .prependInt32 x => b.prependInt32 x
  | .prependInt16 x => b.prependInt16 x
  | .prependInt8 x => b.prependInt8 x
  | .retrieve len => b.retrieve len
  | .retrieveUntil offset => b.retrieveUntil (b.readerIndex + offset)
  | .retrieveInt64 => b.retrieveInt64
  | .retrieveInt32 => b.retrieveInt32
  | .retrieveInt16 => b.retrieveInt16
  | .retrieveInt8 => b.retrieveInt8
  | .retrieveAll => some b.retrieveAll
  | .retrieveAsString len => (b.retrieveAsString len).map Prod.snd
  | .retrieveAllAsString => b.retrieveAllAsString.map Prod.snd
  | .ensureWritableBytes len => b.ensureWritableBytes len
  | .hasWritten data => (b.copyToWrite data).hasWritten data.length
  | .unwrite len => b.unwrite len
  | .shrink reserve => b.shrink reserve
  | .readFd result => b.readFd result

-- What the caller owes: the assert on an operation's own argument, and for
-- readFd what readv can return. The asserts inside the buffer are not here.
def Op.Contract (b : Buffer) : Op → Prop
  | .prepend data => data.length ≤ b.prependableBytes
  | .prependInt64 _ => 8 ≤ b.prependableBytes
  | .prependInt32 _ => 4 ≤ b.prependableBytes
  | .prependInt16 _ => 2 ≤ b.prependableBytes
  | .prependInt8 _ => 1 ≤ b.prependableBytes
  | .retrieve len | .retrieveUntil len | .retrieveAsString len | .unwrite len => len ≤ b.readableBytes
  | .retrieveInt64 => 8 ≤ b.readableBytes
  | .retrieveInt32 => 4 ≤ b.readableBytes
  | .retrieveInt16 => 2 ≤ b.readableBytes
  | .retrieveInt8 => 1 ≤ b.readableBytes
  | .hasWritten data => data.length ≤ b.writableBytes
  | .readFd result => result.Fits b
  | .append _ | .retrieveAll | .retrieveAllAsString | .ensureWritableBytes _ | .shrink _ => True

instance : Decidable (op.Contract b) := by
  cases op <;> (unfold Op.Contract; infer_instance)

-- The sequence a buffer stands for, and what each operation means for it.
def bigEndian : Nat → Nat → List UInt8
  | 0,_ => []
  | n + 1,x => UInt8.ofNat (x / 256 ^ n % 256) :: bigEndian n x

def Op.spec (contents : List UInt8) : Op → List UInt8
  | .append data | .hasWritten data => contents ++ data
  | .readFd result => contents ++ result.data
  | .prepend data => data ++ contents
  | .prependInt64 x => bigEndian 8 x.toNat ++ contents
  | .prependInt32 x => bigEndian 4 x.toNat ++ contents
  | .prependInt16 x => bigEndian 2 x.toNat ++ contents
  | .prependInt8 x => bigEndian 1 x.toNat ++ contents
  | .retrieve len | .retrieveUntil len | .retrieveAsString len => contents.drop len
  | .retrieveInt64 => contents.drop 8
  | .retrieveInt32 => contents.drop 4
  | .retrieveInt16 => contents.drop 2
  | .retrieveInt8 => contents.drop 1
  | .retrieveAll | .retrieveAllAsString => []
  | .unwrite len => contents.take (contents.length - len)
  | .ensureWritableBytes _ | .shrink _ => contents

theorem memory_length (n x : Nat) : (memory n x).length = n := by
  induction n generalizing x with
  | zero => rfl
  | succ n ih => simp [memory,ih]

theorem memory_ofMemory (bytes : List UInt8) : memory bytes.length (ofMemory bytes) = bytes := by
  induction bytes with
  | nil => rfl
  | cons byte rest ih =>
    have small : byte.toNat < 256 := byte.toNat_lt
    have low : (byte.toNat + 256 * ofMemory rest) % 256 = byte.toNat := by omega
    have high : (byte.toNat + 256 * ofMemory rest) / 256 = ofMemory rest := by omega
    rw [List.length_cons,ofMemory,memory,low,high,ih,UInt8.ofNat_toNat]

theorem bigEndian_low (n x : Nat) :
    bigEndian (n + 1) x = bigEndian n (x / 256) ++ [UInt8.ofNat (x % 256)] := by
  induction n with
  | zero => simp [bigEndian]
  | succ n ih =>
    rw [bigEndian,ih,bigEndian,Nat.div_div_eq_div_mul,← Nat.pow_succ',List.cons_append]

theorem memory_reverse (n x : Nat) : (memory n x).reverse = bigEndian n x := by
  induction n generalizing x with
  | zero => rfl
  | succ n ih => rw [memory,List.reverse_cons,ih,bigEndian_low]

-- The bytes that htobe leaves in memory are the value's, most significant first.
theorem memory_htobe (n x : Nat) : memory n (htobe n x) = bigEndian n x := by
  have back := memory_ofMemory (memory n x).reverse
  rw [List.length_reverse,memory_length] at back
  rw [htobe,back,memory_reverse]

theorem bigEndian_length (n x : Nat) : (bigEndian n x).length = n := by
  rw [← memory_reverse,List.length_reverse,memory_length]

theorem prependInt_yields (valid : b.Valid) (n x : Nat) (bound : n ≤ b.prependableBytes) :
    Yields (b.prepend (memory n (htobe n x))) (bigEndian n x ++ b.readable) := by
  rw [memory_htobe]
  exact prepend_yields valid (by rw [bigEndian_length]; exact bound)

-- Every operation called within its contract passes the asserts inside the
-- buffer and does to the readable bytes what it means for the sequence.
theorem Op.call_yields (valid : b.Valid) (op : Op) (met : op.Contract b) :
    Yields (op.call b) (op.spec b.readable) := by
  cases op with
  | append data => exact append_yields valid data
  | prepend data => exact prepend_yields valid met
  | prependInt64 x => exact prependInt_yields valid 8 x.toNat met
  | prependInt32 x => exact prependInt_yields valid 4 x.toNat met
  | prependInt16 x => exact prependInt_yields valid 2 x.toNat met
  | prependInt8 x =>
    have byte : memory 1 x.toNat = bigEndian 1 x.toNat := by simp [memory,bigEndian]
    rw [Op.call,Buffer.prependInt8,byte]
    exact prepend_yields valid (by rw [bigEndian_length]; exact met)
  | retrieve len => exact retrieve_yields valid met
  | retrieveUntil offset => exact retrieveUntil_yields valid met
  | retrieveInt64 => exact retrieve_yields valid met
  | retrieveInt32 => exact retrieve_yields valid met
  | retrieveInt16 => exact retrieve_yields valid met
  | retrieveInt8 => exact retrieve_yields valid met
  | retrieveAll => exact retrieveAll_yields valid
  | retrieveAsString len =>
    obtain ⟨after,got,kept,rest⟩ := retrieveAsString_parts valid met
    exact ⟨after,by rw [Op.call,got]; rfl,kept,rest⟩
  | retrieveAllAsString =>
    obtain ⟨after,got,kept,rest⟩ := retrieveAsString_parts valid (Nat.le_refl b.readableBytes)
    refine ⟨after,by rw [Op.call,Buffer.retrieveAllAsString,got]; rfl,kept,?_⟩
    rw [rest,← readable_length valid,List.drop_length]
    rfl
  | ensureWritableBytes len =>
    obtain ⟨after,got,kept,same,_⟩ := ensureWritableBytes_parts valid len
    exact ⟨after,got,kept,same⟩
  | hasWritten data => exact written_yields valid met
  | unwrite len => exact unwrite_yields valid met
  | shrink reserve => exact shrink_yields valid reserve
  | readFd result => exact readFd_yields valid result met

-- Any number of buffers, each with its own initial size; swap is between two.
inductive Call (ι : Type) where
  | on (i : ι) (op : Op)
  | swap (i j : ι)

def swap (buffers : ι → Buffer) (i j : ι) : ι → Buffer :=
  fun k => if k = i then buffers j else if k = j then buffers i else buffers k

def Call.Contract (buffers : ι → Buffer) : Call ι → Prop
  | .on i op => op.Contract (buffers i)
  | .swap _ _ => True

def pool (size : ι → Nat) : Machine (ι → Buffer) (Call ι) where
  start buffers := buffers = fun i => new (size i)
  next buffers
    | .on i op => if op.Contract (buffers i) then (op.call (buffers i)).map (Function.update buffers i) else none
    | .swap i j => some (swap buffers i j)

def Call.spec (contents : ι → List UInt8) : Call ι → ι → List UInt8
  | .on i op => Function.update contents i (op.spec (contents i))
  | .swap i j => fun k => if k = i then contents j else if k = j then contents i else contents k

theorem pool_next_parts {size : ι → Nat} {buffers after : ι → Buffer} {call : Call ι}
    (valid : ∀ i, (buffers i).Valid) (taken : (pool size).next buffers call = some after) :
    (∀ i, (after i).Valid) ∧
      (fun i => (after i).readable) = call.spec (fun i => (buffers i).readable) := by
  cases call with
  | swap i j =>
    cases Option.some.inj taken
    refine ⟨fun k => ?_,funext fun k => ?_⟩
    · simp only [swap]; split
      · exact valid j
      · split
        · exact valid i
        · exact valid k
    · simp only [swap,Call.spec]; split
      · rfl
      · split <;> rfl
  | on i op =>
    simp only [pool] at taken
    split at taken
    · rename_i met
      obtain ⟨changed,called,rfl⟩ := Option.map_eq_some_iff.mp taken
      obtain ⟨kept,contents⟩ := (Op.call_yields (valid i) op met).of_eq called
      refine ⟨fun k => ?_,funext fun k => ?_⟩
      · by_cases same : k = i
        · subst same; simpa using kept
        · simpa [same] using valid k
      · by_cases same : k = i
        · subst same; simpa [Call.spec] using contents
        · simp [Call.spec,same]
    · cases taken

-- The indices are ordered, the assert in makeSpace and every other assert
-- inside the buffers hold, and the contents are what the calls mean.
theorem buffers_hold_sequences (size : ι → Nat) (calls : List (Call ι)) (buffers : ι → Buffer)
    (ran : (pool size).run (fun i => new (size i)) calls = some buffers) :
    (∀ i, (buffers i).readerIndex ≤ (buffers i).writerIndex ∧
      (buffers i).writerIndex ≤ (buffers i).buffer.length) ∧
    (∀ i len, (buffers i).writableBytes < len → ((buffers i).makeSpace len).isSome) ∧
    (∀ call, Call.Contract buffers call → ((pool size).next buffers call).isSome) ∧
    (fun i => (buffers i).readable) = calls.foldl Call.spec (fun _ => []) := by
  have step : ∀ buffers call after, (∀ i, (buffers i).Valid) → (pool size).next buffers call = some after →
      (∀ i, (after i).Valid) ∧ (fun i => (after i).readable) = call.spec (fun i => (buffers i).readable) :=
    fun _ _ _ valid taken => pool_next_parts valid taken
  obtain ⟨valid,contents⟩ := Machine.run_abstracts (fun s l t v h => (step s l t v h).1)
    (fun s l t v h => (step s l t v h).2) (fun i => new_valid (size i)) ran
  refine ⟨fun i => ⟨(valid i).ordered,(valid i).inside⟩,fun i len short => ?_,fun call met => ?_,?_⟩
  · obtain ⟨after,made,_⟩ := makeSpace_yields (valid i) short
    rw [made]; rfl
  · cases call with
    | swap i j => rfl
    | on i op =>
      change op.Contract (buffers i) at met
      obtain ⟨after,called,_⟩ := Op.call_yields (valid i) op met
      simp only [pool]
      rw [if_pos met,called]
      rfl
  · simpa only [new_readable] using contents

theorem buffers_hold_sequences_two :
    ∃ buffers : Bool → Buffer, (pool fun _ => 4).run (fun _ => new 4)
      [.on true (.append [1,2,3,4,5,6]),.on true (.prependInt16 0x0a0b),.swap true false,
        .on false (.retrieve 3),.on true (.readFd (.bytes [7,8,9,10,11]))] = some buffers ∧
      (buffers true).readable = [7,8,9,10,11] ∧ (buffers false).readable = [2,3,4,5,6] := by
  obtain ⟨buffers,ran⟩ := Option.isSome_iff_exists.mp (show ((pool fun _ : Bool => 4).run (fun _ => new 4)
    [.on true (.append [1,2,3,4,5,6]),.on true (.prependInt16 0x0a0b),.swap true false,
      .on false (.retrieve 3),.on true (.readFd (.bytes [7,8,9,10,11]))]).isSome by decide)
  have contents := (buffers_hold_sequences _ _ buffers ran).2.2.2
  exact ⟨buffers,ran,(congrFun contents true).trans (by decide),(congrFun contents false).trans (by decide)⟩

end NewMuduo.Buffer
