import NewMuduo.CoroTcpConnection

namespace NewMuduo.CoroConn
variable {w after : CoroConn} {label : Label}

-- What the ways to end a connection read and write.
def ending (w : CoroConn) : Bool × Nat × Bool × Bool × Bool := (w.conn.connected,w.closes,w.mapped,w.eof,w.finished)

-- What sending and writing read and write.
def stream (w : CoroConn) : Buffer × List (List UInt8) × List UInt8 × List (List UInt8 × List UInt8) :=
  (w.conn.outputBuffer,w.sent,w.taken,w.shutdowns)

@[simp] theorem pop_ending (w : CoroConn) (rest : List Frame) : (w.pop rest).ending = w.ending := rfl
@[simp] theorem removeChannel_ending (w : CoroConn) : w.removeChannel.ending = w.ending := rfl
@[simp] theorem removeChannel_stream (w : CoroConn) : w.removeChannel.stream = w.stream := rfl

@[simp] theorem release_ending (w : CoroConn) : w.release.ending = w.ending := by
  unfold release
  split
  · rfl
  · exact removeChannel_ending w

@[simp] theorem release_stream (w : CoroConn) : w.release.stream = w.stream := by
  unfold release
  split
  · rfl
  · exact removeChannel_stream w

@[simp] theorem closeCallback_ending (w : CoroConn) :
    w.closeCallback.ending = (w.conn.connected,w.closes + 1,false,w.eof,w.finished) := by
  unfold closeCallback
  rw [release_ending]
  rfl

@[simp] theorem closeCallback_stream (w : CoroConn) : w.closeCallback.stream = w.stream := by
  unfold closeCallback
  rw [release_stream]
  rfl

theorem handleClose_open (live : w.conn.connected = true) :
    w.handleClose.ending = (false,w.closes + 1,false,w.eof,w.finished) := by
  unfold handleClose
  rw [if_pos live]
  exact closeCallback_ending _

@[simp] theorem handleClose_stream (w : CoroConn) : w.handleClose.stream = w.stream := by
  unfold handleClose
  split
  · exact closeCallback_stream _
  · rfl

-- closeCallback_ ran at most once, and it did when the peer's end of stream
-- was read or connectionLoop is over; the entry in connections_ goes with it.
structure ClosedOnce (w : CoroConn) : Prop where
  once : w.closes ≤ 1
  by_then : w.eof = true ∨ w.finished = true → w.closes = 1
  entry : w.mapped = true ↔ w.closes = 0

-- The condition: end of stream is read before any shutdown() (or after the
-- callback has run), the handler returns before anything else has closed the
-- connection, and it throws only after something has.
def EndsOnce (w : CoroConn) : Label → Prop
  | .frame (.read (.bytes [])) => w.conn.connected = true ∨ 0 < w.closes
  | .connectionLoop threw => if threw then w.closes = 1 else w.closes = 0
  | _ => True

-- connected_ set means that nothing has closed the connection so far.
structure Closing (w : CoroConn) : Prop where
  good : ClosedOnce w
  live : w.conn.connected = true → w.closes = 0

theorem ending_parts (same : after.ending = w.ending) : after.conn.connected = w.conn.connected ∧ after.closes = w.closes ∧
    after.mapped = w.mapped ∧ after.eof = w.eof ∧ after.finished = w.finished := by
  simpa [ending] using same

theorem Closing.frame (old : Closing w) (same : after.ending = w.ending) : Closing after := by
  obtain ⟨connected,closes,mapped,eof,finished⟩ := ending_parts same
  refine ⟨⟨closes ▸ old.good.once,?_,?_⟩,?_⟩
  · rw [eof,finished,closes]
    exact old.good.by_then
  · rw [mapped,closes]
    exact old.good.entry
  · rw [connected,closes]
    exact old.live

-- The first call of closeCallback_.
theorem closing_of_first {eof finished : Bool} (first : w.closes = 0)
    (ends : after.ending = (false,w.closes + 1,false,eof,finished)) : Closing after := by
  simp only [ending,Prod.mk.injEq] at ends
  obtain ⟨connected,closes,mapped,_,_⟩ := ends
  have one : after.closes = 1 := by omega
  refine ⟨⟨Nat.le_of_eq one,fun _ => one,?_⟩,?_⟩
  · rw [mapped,one]
    decide
  · rw [connected]
    intro live
    cases live

theorem Closing.handleClose (old : Closing w) : Closing w.handleClose := by
  cases live : w.conn.connected with
  | true => exact closing_of_first (old.live live) (handleClose_open live)
  | false => exact (handleClose_closed live).symm ▸ old

theorem Closing.step (old : Closing w) (met : EndsOnce w label) (taken : Step w label after) : Closing after := by
  cases taken with
  | hup _ => exact (old.frame (pop_ending w _)).handleClose
  | writeError _ _ _ => exact (old.frame (pop_ending w _)).handleClose
  | @eof rest _ =>
    cases live : w.conn.connected with
    | true => exact closing_of_first (old.live live) (handleClose_open live)
    | false =>
      have closed : w.closes = 1 := by
        have some_call : 0 < w.closes := met.resolve_left (by rw [live]; exact Bool.false_ne_true)
        have once := old.good.once
        omega
      have noted : Closing {w.pop rest with eof := true} := ⟨⟨old.good.once,fun _ => closed,old.good.entry⟩,old.live⟩
      exact noted.handleClose
  | @connectionLoop threw _ =>
    cases threw with
    | true =>
      have closed : w.closes = 1 := met
      exact ⟨⟨old.good.once,fun _ => closed,old.good.entry⟩,old.live⟩
    | false => exact closing_of_first met (closeCallback_ending _)
  | shutdown =>
    refine ⟨⟨old.good.once,old.good.by_then,old.good.entry⟩,?_⟩
    intro live
    cases live
  | returned _ => exact old.frame (release_ending _)
  | drop _ => exact old.frame (release_ending _)
  | sent _ _ =>
    split
    · exact old.frame rfl
    · exact old.frame rfl
  | _ => exact old.frame rfl

theorem endsOnce_data (some_data : data ≠ []) : EndsOnce w (.frame (.read (.bytes data))) := by
  cases data with
  | nil => exact absurd rfl some_data
  | cons byte more => trivial

theorem ending_broken (missed : ¬EndsOnce w label) (taken : Step w label after) : ¬ClosedOnce after := by
  intro good
  cases taken with
  | @eof rest _ =>
    have both := not_or.mp missed
    have closed : w.conn.connected = false := Bool.not_eq_true _ ▸ both.1
    have once : w.closes = 1 := by
      have ignored : CoroConn.handleClose {w.pop rest with eof := true} = {w.pop rest with eof := true} := handleClose_closed closed
      exact (ignored ▸ good).by_then (.inl rfl)
    exact both.2 (by omega)
  | @connectionLoop threw _ =>
    cases threw with
    | true => exact missed (good.by_then (.inr rfl))
    | false =>
      have called : (w.connectionLoop false).closes = w.closes + 1 :=
        congrArg (·.2.1) (closeCallback_ending {w with finished := true,conn := {w.conn with connected := false}})
      have once := good.once
      exact missed (by change w.closes = 0; omega)
  | data _ some_data _ _ => exact missed (endsOnce_data some_data)
  | unread _ some_data _ _ => exact missed (endsOnce_data some_data)
  | _ => exact missed trivial

theorem started_closing (fd : Nat) (dataCallback : Bool) : Closing (started fd dataCallback) :=
  ⟨⟨Nat.zero_le 1,fun ended => (by rcases ended with eof | finished <;> cases ‹_›),iff_of_true rfl rfl⟩,fun _ => rfl⟩

theorem closed_once_iff {final : CoroConn} {labels : List Label} (origin : machine.start w)
    (ran : machine.run w labels = some final) :
    machine.Throughout ClosedOnce w labels ↔ machine.Meets EndsOnce w labels := by
  obtain ⟨fd,dataCallback,rfl⟩ := origin
  have sound : ∀ s, Closing s → ClosedOnce s := fun _ valid => valid.good
  have kept : ∀ s label after, Closing s → EndsOnce s label → machine.next s label = some after → Closing after :=
    fun _ _ _ old met taken => old.step met (next_step taken).2.2
  have broken : ∀ s label after, Closing s → ¬EndsOnce s label → machine.next s label = some after → ¬ClosedOnce after :=
    fun _ _ _ _ missed taken => ending_broken missed (next_step taken).2.2
  exact Machine.throughout_iff_meets sound kept broken (started_closing fd dataCallback) ran

theorem handler_returns_then_eof : machine.Throughout ClosedOnce (started 3 true)
    [.connectionLoop false,.event EPOLLIN,.frame (.read (.bytes []))] := by
  have ran : (machine.run (started 3 true) [.connectionLoop false,.event EPOLLIN,.frame (.read (.bytes []))]).isSome = true := by
    decide +kernel
  obtain ⟨final,ran⟩ := Option.isSome_iff_exists.mp ran
  refine (closed_once_iff ⟨3,true,rfl⟩ ran).mpr (.cons rfl rfl ?_)
  refine .cons trivial rfl ?_
  exact ⟨.inr Nat.one_pos,fun _ _ => trivial⟩

-- shutdown() clears connected_, so handleClose ignores the end of stream; and
-- the handler that returns after handleClose calls closeCallback_ once more.
theorem stays_mapped_or_closes_twice :
    (∃ s, machine.run (started 3 true) [.shutdown,.event EPOLLIN,.frame (.read (.bytes [])),.handled] = some s ∧
      s.eof = true ∧ s.closes = 0 ∧ s.mapped = true ∧ ¬ClosedOnce s) ∧
    ∃ s, machine.run (started 3 true) [.event EPOLLIN,.frame (.read (.bytes [])),.connectionLoop false] = some s ∧
      s.closes = 2 ∧ ¬ClosedOnce s := by
  refine ⟨⟨_,rfl,rfl,rfl,rfl,?_⟩,⟨_,rfl,rfl,?_⟩⟩
  · intro good
    cases good.by_then (.inl rfl)
  · intro good
    exact absurd good.once (by decide)

-- Every message accepted is with the kernel or in outputBuffer_, in order.
structure Outgoing (w : CoroConn) : Prop where
  output : w.conn.outputBuffer.Valid
  bytes : w.taken ++ w.conn.outputBuffer.readable = w.sent.flatten

-- The kernel has got the beginning of what was sent, and at each SHUT_WR all of it.
def InOrder (w : CoroConn) : Prop := w.taken <+: w.sent.flatten

def WholeAtShutdown (w : CoroConn) : Prop := ∀ issued ∈ w.shutdowns, issued.1 = issued.2

-- The condition: shutdown() finds nothing buffered.
def ShutsDrained (w : CoroConn) : Label → Prop
  | .shutdown => w.conn.outputBuffer.readableBytes = 0
  | _ => True

theorem stream_parts (same : after.stream = w.stream) : after.conn.outputBuffer = w.conn.outputBuffer ∧
    after.sent = w.sent ∧ after.taken = w.taken ∧ after.shutdowns = w.shutdowns := by
  simpa [stream] using same

theorem Outgoing.frame (old : Outgoing w) (same : after.stream = w.stream) : Outgoing after := by
  obtain ⟨buffer,sent,taken,_⟩ := stream_parts same
  refine ⟨buffer ▸ old.output,?_⟩
  rw [buffer,sent,taken]
  exact old.bytes

theorem Outgoing.write (old : Outgoing w) (fits : n ≤ w.conn.outputBuffer.readableBytes)
    (retrieved : w.conn.outputBuffer.retrieve n = some outputBuffer) :
    outputBuffer.Valid ∧ w.taken ++ w.conn.outputBuffer.readable.take n ++ outputBuffer.readable = w.sent.flatten := by
  obtain ⟨_,found,valid,contents⟩ := Buffer.retrieve_yields old.output fits
  cases Option.some.inj (found.symm.trans retrieved)
  refine ⟨valid,?_⟩
  rw [contents,List.append_assoc,List.take_append_drop]
  exact old.bytes

theorem Outgoing.append (old : Outgoing w) (appended : w.conn.outputBuffer.append data = some outputBuffer) :
    outputBuffer.Valid ∧ w.taken ++ outputBuffer.readable = (w.sent ++ [data]).flatten := by
  obtain ⟨_,found,valid,contents⟩ := Buffer.append_yields old.output data
  cases Option.some.inj (found.symm.trans appended)
  refine ⟨valid,?_⟩
  rw [contents,List.flatten_append,← old.bytes]
  simp

theorem Outgoing.step (old : Outgoing w) (taken : Step w label after) : Outgoing after := by
  cases taken with
  | hup _ => exact old.frame (handleClose_stream _)
  | eof _ => exact old.frame (handleClose_stream _)
  | writeError _ _ _ => exact old.frame (handleClose_stream _)
  | wrote _ _ fits retrieved _ =>
    obtain ⟨valid,bytes⟩ := old.write fits retrieved
    exact ⟨valid,bytes⟩
  | drained _ _ fits retrieved _ =>
    obtain ⟨valid,bytes⟩ := old.write fits retrieved
    exact ⟨valid,bytes⟩
  | sent _ appended =>
    obtain ⟨valid,bytes⟩ := old.append appended
    split
    · exact ⟨valid,bytes⟩
    · exact ⟨valid,bytes⟩
  | @connectionLoop threw _ =>
    cases threw with
    | true => exact ⟨old.output,old.bytes⟩
    | false => exact old.frame (closeCallback_stream _)
  | returned _ => exact old.frame (release_stream _)
  | drop _ => exact old.frame (release_stream _)
  | _ => exact ⟨old.output,old.bytes⟩

theorem Outgoing.inOrder (old : Outgoing w) : InOrder w := ⟨_,old.bytes⟩

theorem started_outgoing (fd : Nat) (dataCallback : Bool) : Outgoing (started fd dataCallback) :=
  ⟨Buffer.new_valid kInitialSize,Buffer.new_readable kInitialSize⟩

-- shutdown() is the only step that issues SHUT_WR.
theorem step_shutdowns (taken : Step w label after) (other : label ≠ .shutdown) : after.shutdowns = w.shutdowns := by
  have kept : ∀ {before : CoroConn}, after.stream = before.stream → before.shutdowns = w.shutdowns → after.shutdowns = w.shutdowns :=
    fun same rest => (stream_parts same).2.2.2.trans rest
  cases taken with
  | hup _ => exact kept (handleClose_stream _) rfl
  | eof _ => exact kept (handleClose_stream _) rfl
  | writeError _ _ _ => exact kept (handleClose_stream _) rfl
  | @connectionLoop threw _ =>
    cases threw with
    | true => rfl
    | false => exact kept (closeCallback_stream _) rfl
  | returned _ => exact kept (release_stream _) rfl
  | drop _ => exact kept (release_stream _) rfl
  | shutdown => exact absurd rfl other
  | sent _ _ => split <;> rfl
  | _ => rfl

theorem shutdown_whole_iff (old : Outgoing w) : WholeAtShutdown w.shutdown ↔
    WholeAtShutdown w ∧ w.conn.outputBuffer.readableBytes = 0 := by
  have now : w.taken = w.sent.flatten ↔ w.conn.outputBuffer.readableBytes = 0 := by
    rw [← old.bytes,← Buffer.readable_length old.output,List.length_eq_zero_iff]
    simp
  simp only [WholeAtShutdown,shutdown,List.forall_mem_append,List.forall_mem_singleton,now]

theorem whole_step (old : Outgoing w) (whole : WholeAtShutdown w) (met : ShutsDrained w label) (taken : Step w label after) :
    WholeAtShutdown after := by
  by_cases kind : label = .shutdown
  · cases kind
    cases taken
    exact (shutdown_whole_iff old).mpr ⟨whole,met⟩
  · unfold WholeAtShutdown
    rw [step_shutdowns taken kind]
    exact whole

theorem whole_broken (old : Outgoing w) (missed : ¬ShutsDrained w label) (taken : Step w label after) : ¬WholeAtShutdown after := by
  cases taken with
  | shutdown => exact fun whole => missed ((shutdown_whole_iff old).mp whole).2
  | _ => exact absurd trivial missed

-- Nothing is reordered or lost before shutdown(), and what shutdown() cuts off
-- is exactly what outputBuffer_ holds then.
theorem whole_at_shutdown_iff {final : CoroConn} {labels : List Label} (origin : machine.start w)
    (ran : machine.run w labels = some final) :
    machine.Throughout InOrder w labels ∧
    (machine.Throughout WholeAtShutdown w labels ↔ machine.Meets ShutsDrained w labels) := by
  obtain ⟨fd,dataCallback,rfl⟩ := origin
  have fresh := started_outgoing fd dataCallback
  have stays : ∀ s label after, Outgoing s → True → machine.next s label = some after → Outgoing after :=
    fun _ _ _ old _ taken => old.step (next_step taken).2.2
  have kept : ∀ s label after, Outgoing s ∧ WholeAtShutdown s → ShutsDrained s label → machine.next s label = some after →
      Outgoing after ∧ WholeAtShutdown after := by
    intro s label after old met taken
    have step := (next_step taken).2.2
    exact ⟨old.1.step step,whole_step old.1 old.2 met step⟩
  have broken : ∀ s label after, Outgoing s ∧ WholeAtShutdown s → ¬ShutsDrained s label → machine.next s label = some after →
      ¬WholeAtShutdown after := fun _ _ _ old missed taken => whole_broken old.1 missed (next_step taken).2.2
  constructor
  · exact Machine.throughout_of_meets (fun _ old => old.inOrder) stays fresh (Machine.meets_labels fun _ _ _ => trivial)
  · exact Machine.throughout_iff_meets (fun _ old => old.2) kept broken ⟨fresh,fun _ found => (by cases found)⟩ ran

theorem shutdown_after_two_writes : machine.Throughout WholeAtShutdown (started 3 true)
    ([.send [1,2],.event EPOLLOUT,.frame (.write (.wrote 1)),.handled,
      .event EPOLLOUT,.frame (.write (.wrote 1)),.handled] ++ [.shutdown]) := by
  have found : (machine.run (started 3 true) [.send [1,2],.event EPOLLOUT,.frame (.write (.wrote 1)),.handled,
      .event EPOLLOUT,.frame (.write (.wrote 1)),.handled]).map (·.conn.outputBuffer.readableBytes) = some 0 := by
    decide +kernel
  obtain ⟨middle,drained,empty⟩ := Option.map_eq_some_iff.mp found
  have whole : (machine.run (started 3 true) ([.send [1,2],.event EPOLLOUT,.frame (.write (.wrote 1)),.handled,
      .event EPOLLOUT,.frame (.write (.wrote 1)),.handled] ++ [.shutdown])).isSome = true := by decide +kernel
  obtain ⟨final,ran⟩ := Option.isSome_iff_exists.mp whole
  refine (whole_at_shutdown_iff ⟨3,true,rfl⟩ ran).2.mpr (Machine.meets_append drained ?_ ⟨empty,fun _ _ => trivial⟩)
  refine Machine.meets_labels fun label member s => ?_
  cases label with
  | shutdown => simp at member
  | _ => trivial

-- send only buffers, so shutdown() right after it loses the message.
theorem shutdown_cuts_message_off : ∃ s, machine.run (started 3 true) [.send [1,2],.shutdown] = some s ∧
    s.sent = [[1,2]] ∧ s.taken = [] ∧ s.shutdowns = [([],[1,2])] ∧ ¬WholeAtShutdown s := by
  have found : (machine.run (started 3 true) [.send [1,2],.shutdown]).map (fun s => (s.sent,s.taken,s.shutdowns)) =
      some ([[1,2]],[],[([],[1,2])]) := by decide +kernel
  obtain ⟨s,ran,parts⟩ := Option.map_eq_some_iff.mp found
  simp only [Prod.mk.injEq] at parts
  obtain ⟨sent,taken,shutdowns⟩ := parts
  refine ⟨s,ran,sent,taken,shutdowns,?_⟩
  intro whole
  rw [WholeAtShutdown,shutdowns] at whole
  cases whole _ List.mem_cons_self

end NewMuduo.CoroConn
