import NewMuduo.ConnectionLoop

namespace NewMuduo.ConnLoop
variable {w after : ConnLoop} {s reached : Life} {sent : List (List UInt8)}

-- The bytes the kernel has and the bytes buffered are the accepted messages,
-- EPOLLOUT is wanted for a backlog only, and SHUT_WR never cuts one off.
structure Stream (sent : List (List UInt8)) (w : ConnLoop) : Prop where
  output : w.conn.outputBuffer.Valid
  input : w.conn.inputBuffer.Valid
  bytes : w.taken ++ w.conn.outputBuffer.readable = sent.flatten
  interest : w.conn.state ≠ .kDisconnected →
    (w.conn.channel.isWriting = true ↔ w.conn.outputBuffer.readable ≠ [])
  shutdowns : ∀ issued ∈ w.shutdowns, issued.1 ≠ .kDisconnected → issued.2 = []

theorem backlog_none (valid : w.conn.outputBuffer.Valid) :
    w.conn.outputBuffer.readableBytes = 0 ↔ w.conn.outputBuffer.readable = [] := by
  rw [← Buffer.readable_length valid,List.length_eq_zero_iff]

-- A step that touches none of this, or that leaves the live states.
theorem Stream.frame (old : Stream sent w) (input : after.conn.inputBuffer.Valid)
    (output : after.conn.outputBuffer = w.conn.outputBuffer) (taken : after.taken = w.taken)
    (shutdowns : after.shutdowns = w.shutdowns)
    (live : after.conn.state ≠ .kDisconnected →
      w.conn.state ≠ .kDisconnected ∧ after.conn.channel.isWriting = w.conn.channel.isWriting) :
    Stream sent after := by
  refine ⟨by rw [output]; exact old.output,input,by rw [taken,output]; exact old.bytes,?_,by rw [shutdowns]; exact old.shutdowns⟩
  intro alive
  obtain ⟨before,same⟩ := live alive
  rw [same,output]
  exact old.interest before

theorem Stream.shutdownInLoop (old : Stream sent w) : Stream sent w.shutdownInLoop := by
  unfold ConnLoop.shutdownInLoop
  split
  · rename_i idle
    refine ⟨old.output,old.input,old.bytes,old.interest,?_⟩
    intro issued found alive
    rcases List.mem_append.mp found with earlier | now
    · exact old.shutdowns issued earlier alive
    · cases List.mem_singleton.mp now
      by_contra backlog
      rw [(old.interest alive).mpr backlog] at idle
      cases idle
  · exact old

theorem Stream.shutdown (old : Stream sent w) : Stream sent w.shutdown := by
  unfold ConnLoop.shutdown
  split
  · rename_i connected
    have marked : Stream sent (w.setState .kDisconnecting) :=
      old.frame old.input rfl rfl rfl fun _ => ⟨by rw [connected]; decide,rfl⟩
    exact marked.shutdownInLoop
  · exact old

theorem Stream.forceClose (old : Stream sent w) : Stream sent w.forceClose := by
  unfold ConnLoop.forceClose
  split
  · rename_i live
    exact old.frame old.input rfl rfl rfl fun _ => ⟨by rcases live with same | same <;> rw [same] <;> decide,rfl⟩
  · exact old

theorem Stream.startRead (old : Stream sent w) : Stream sent w.startRead := by
  unfold ConnLoop.startRead
  split
  · refine old.frame old.input rfl rfl rfl fun live => ⟨live,?_⟩
    exact (request_isWriting _).trans Channel.enableReading_writing
  · exact old

theorem Stream.stopRead (old : Stream sent w) : Stream sent w.stopRead := by
  unfold ConnLoop.stopRead
  split
  · refine old.frame old.input rfl rfl rfl fun live => ⟨live,?_⟩
    exact (request_isWriting _).trans Channel.disableReading_writing
  · exact old

theorem Stream.handleClose (old : Stream sent w) : Stream sent w.handleClose :=
  old.frame old.input rfl rfl rfl fun live => absurd rfl live

theorem Stream.pop (old : Stream sent w) (rest : List Frame) : Stream sent (w.pop rest) :=
  old.frame old.input rfl rfl rfl fun live => ⟨live,rfl⟩

theorem Stream.call (old : Stream sent w) (frames : List Frame) : Stream sent (w.call frames) :=
  old.frame old.input rfl rfl rfl fun live => ⟨live,rfl⟩

theorem Stream.remove (old : Stream sent w) : Stream sent w.remove := by
  refine old.frame old.input rfl rfl rfl fun live => ⟨live,?_⟩
  simp [ConnLoop.remove,Channel.isWriting]

theorem Stream.connectDestroyed (old : Stream sent w) : Stream sent w.connectDestroyed := by
  unfold ConnLoop.connectDestroyed
  split
  · exact old.frame old.input rfl rfl rfl fun live => absurd rfl live
  · exact old.remove

theorem Stream.forceCloseInLoop (old : Stream sent w) : Stream sent w.forceCloseInLoop := by
  unfold ConnLoop.forceCloseInLoop
  split
  · exact old.handleClose
  · exact old

-- Two notices to the user: the only functors that sending and writing queue.
theorem queueWriteComplete_notices (w : ConnLoop) : ∃ notices, Functor.connectDestroyed ∉ notices ∧
    w.queueWriteComplete = {w with pendingFunctors := w.pendingFunctors ++ notices} := by
  unfold queueWriteComplete
  split
  · exact ⟨[.writeCompleteCallback],by simp,rfl⟩
  · exact ⟨[],by simp,by simp⟩

-- What the direct write leaves: only the bytes taken and the functor queue change.
theorem directWrite_parts (data : List UInt8) (result : DirectResult) (fits : result.Fits data.length) :
    ∃ notices nwrote remaining, Functor.connectDestroyed ∉ notices ∧ nwrote + remaining = data.length ∧
      (w.writesDirectly = false ∨ w.accepts result = false → nwrote = 0) ∧
      w.directWrite data result = ({w with
        taken := w.taken ++ data.take nwrote
        pendingFunctors := w.pendingFunctors ++ notices},nwrote,remaining,!w.accepts result) := by
  unfold directWrite
  cases direct : w.writesDirectly with
  | false =>
    have kept : w.accepts result = true := by cases result <;> simp [accepts,direct]
    exact ⟨[],0,data.length,by simp,by omega,fun _ => rfl,by simp [kept]⟩
  | true =>
    cases result with
    | error errno logged => exact ⟨[],0,data.length,by simp,by omega,fun _ => rfl,by simp [accepts,direct]⟩
    | wrote nwrote =>
      have whole : nwrote + (data.length - nwrote) = data.length := Nat.add_sub_cancel' fits
      by_cases ended : data.length - nwrote = 0
      · obtain ⟨notices,clean,queued⟩ :=
          queueWriteComplete_notices {w with taken := w.taken ++ data.take nwrote}
        exact ⟨notices,nwrote,_,clean,whole,by simp [accepts],by simp [accepts,ended,queued]⟩
      · exact ⟨[],nwrote,_,by simp,whole,by simp [accepts],by simp [accepts,ended]⟩

theorem bufferRest_parts (data : List UInt8) (nwrote remaining : Nat) (valid : w.conn.outputBuffer.Valid) :
    ∃ notices outputBuffer, Functor.connectDestroyed ∉ notices ∧ outputBuffer.Valid ∧
      outputBuffer.readable = w.conn.outputBuffer.readable ++ (data.drop nwrote).take remaining ∧
      w.bufferRest data nwrote remaining =
        let w := {w with
          pendingFunctors := w.pendingFunctors ++ notices
          conn := {w.conn with outputBuffer := outputBuffer}}
        some (if !w.conn.channel.isWriting then w.request .enableWriting else w) := by
  obtain ⟨outputBuffer,appended,kept,contents⟩ :=
    Buffer.append_yields valid ((data.drop nwrote).take remaining)
  unfold bufferRest
  dsimp only
  split
  · refine ⟨[.highWaterMarkCallback (w.conn.outputBuffer.readableBytes + remaining)],
      outputBuffer,by simp,kept,contents,?_⟩
    simp [queueInLoop,appended]
  · exact ⟨[],outputBuffer,by simp,kept,contents,by simp [appended]⟩

-- sendInLoop passes its asserts, and afterwards the message is behind all that
-- was accepted before unless its direct write failed for good.
theorem Stream.sendInLoop (old : Stream sent w) (data : List UInt8) (result : DirectResult)
    (fits : result.Fits data.length) : ∃ after, w.sendInLoop data result = some after ∧
      after.conn.state = w.conn.state ∧
      Stream (sent ++ if w.conn.state ≠ .kDisconnected ∧ w.accepts result then [data] else []) after := by
  unfold ConnLoop.sendInLoop
  by_cases closed : w.conn.state = .kDisconnected
  · exact ⟨w,by simp [closed],rfl,by simpa [closed] using old⟩
  obtain ⟨notices,nwrote,remaining,_,whole,unsent,direct⟩ := directWrite_parts (w := w) data result fits
  have idle : w.writesDirectly = true → w.conn.outputBuffer.readable = [] := by
    intro both
    exact (backlog_none old.output).mp (by simpa [writesDirectly] using (Bool.and_eq_true_iff.mp both).2)
  have bytes := old.bytes
  rw [if_neg closed,direct]
  simp only [ne_eq,closed,not_false_eq_true,true_and]
  rw [if_pos (by omega)]
  cases accepted : w.accepts result with
  | false =>
    have none : nwrote = 0 := unsent (.inr accepted)
    refine ⟨{w with taken := w.taken ++ data.take nwrote,pendingFunctors := w.pendingFunctors ++ notices},by simp,rfl,?_⟩
    exact ⟨old.output,old.input,by simpa [none] using bytes,old.interest,old.shutdowns⟩
  | true =>
    -- Behind the backlog when there is one, directly to the kernel when not.
    have order : w.taken ++ data.take nwrote ++ (w.conn.outputBuffer.readable ++ data.drop nwrote) =
        sent.flatten ++ data := by
      cases mode : w.writesDirectly with
      | true => rw [← bytes,idle mode]; simp
      | false => rw [← bytes,unsent (.inl mode)]; simp
    have rest : (data.drop nwrote).take remaining = data.drop nwrote :=
      List.take_of_length_le (by rw [List.length_drop]; omega)
    by_cases left : 0 < remaining
    · obtain ⟨queued,outputBuffer,_,kept,contents,buffered⟩ := bufferRest_parts
        (w := {w with taken := w.taken ++ data.take nwrote,pendingFunctors := w.pendingFunctors ++ notices})
        data nwrote remaining old.output
      rw [rest] at contents
      have pending : outputBuffer.readable ≠ [] := by
        intro empty
        have nothing := congrArg List.length (List.append_eq_nil_iff.mp (contents.symm.trans empty)).2
        rw [List.length_drop,List.length_nil] at nothing
        omega
      have flat : (w.taken ++ data.take nwrote) ++ outputBuffer.readable = (sent ++ [data]).flatten := by
        rw [contents]; simpa using order
      simp only [Bool.not_true,Bool.not_false,left,and_self,if_true]
      rw [buffered]
      refine ⟨_,rfl,?_,?_⟩
      · dsimp only; split <;> rfl
      · dsimp only
        split
        · refine ⟨kept,old.input,flat,fun _ => ⟨fun _ => pending,fun _ => ?_⟩,old.shutdowns⟩
          exact (request_isWriting _).trans Channel.enableWriting_writing
        · rename_i writing
          exact ⟨kept,old.input,flat,fun _ => ⟨fun _ => pending,fun _ => by simpa using writing⟩,old.shutdowns⟩
    · have ended : data.drop nwrote = [] := List.drop_eq_nil_of_le (by omega)
      rw [ended,List.append_nil] at order
      refine ⟨{w with taken := w.taken ++ data.take nwrote,pendingFunctors := w.pendingFunctors ++ notices},by simp [left],rfl,?_⟩
      exact ⟨old.output,old.input,by simpa using order,old.interest,old.shutdowns⟩

-- handleWrite took the last byte: EPOLLOUT is still wanted until written runs.
theorem written_stream (output : w.conn.outputBuffer.Valid) (input : w.conn.inputBuffer.Valid)
    (bytes : w.taken ++ w.conn.outputBuffer.readable = sent.flatten)
    (shutdowns : ∀ issued ∈ w.shutdowns, issued.1 ≠ .kDisconnected → issued.2 = [])
    (empty : w.conn.outputBuffer.readable = []) : Stream sent w.written := by
  have cleared : Stream sent (w.request .disableWriting) := by
    refine ⟨output,input,bytes,fun _ => ?_,shutdowns⟩
    rw [request_isWriting,Channel.disableWriting_writing,request_output,empty]
    simp
  obtain ⟨notices,_,queued⟩ := queueWriteComplete_notices (w.request .disableWriting)
  unfold written
  rw [queued]
  have noted : Stream sent {w.request .disableWriting with pendingFunctors := w.pendingFunctors ++ notices} :=
    cleared.frame input rfl rfl rfl fun live => ⟨live,rfl⟩
  dsimp only
  split
  · exact noted.shutdownInLoop
  · exact noted

theorem Stream.handleWrite (old : Stream sent w) (result : WriteResult)
    (fits : result.Fits w.conn.outputBuffer.readableBytes) :
    ∃ after, w.handleWrite result = some after ∧ Stream sent after := by
  unfold ConnLoop.handleWrite
  split
  · rename_i writing
    cases result with
    | error errno => exact ⟨w,rfl,old⟩
    | wrote n =>
      dsimp only
      split
      · obtain ⟨outputBuffer,retrieved,kept,contents⟩ := Buffer.retrieve_yields old.output fits
        have bytes : w.taken ++ w.conn.outputBuffer.readable.take n ++ outputBuffer.readable = sent.flatten := by
          rw [contents,List.append_assoc,List.take_append_drop]; exact old.bytes
        rw [retrieved]
        refine ⟨_,rfl,?_⟩
        split
        · rename_i drained
          have empty := (Buffer.readable_length kept).trans drained
          exact written_stream kept old.input bytes old.shutdowns (List.eq_nil_of_length_eq_zero empty)
        · rename_i left
          refine ⟨kept,old.input,bytes,fun live => ?_,old.shutdowns⟩
          refine ⟨fun _ empty => left ?_,fun _ => writing⟩
          exact (Buffer.readable_length kept).symm.trans (congrArg List.length empty)
      · exact ⟨w,rfl,old⟩
  · exact ⟨w,rfl,old⟩

theorem Stream.handleRead (old : Stream sent w) (result : Buffer.ReadResult)
    (fits : result.Fits w.conn.inputBuffer) : ∃ after, w.handleRead result = some after ∧ Stream sent after := by
  obtain ⟨inputBuffer,read,kept,_⟩ := Buffer.readFd_yields old.input result fits
  have filled : Stream sent {w with conn := {w.conn with inputBuffer := inputBuffer}} :=
    old.frame kept rfl rfl rfl fun live => ⟨live,rfl⟩
  unfold ConnLoop.handleRead
  rw [read]
  match result with
  | .bytes (_ :: _) => exact ⟨_,rfl,filled.call _⟩
  | .bytes [] => exact ⟨_,rfl,filled.handleClose⟩
  | .error => exact ⟨_,rfl,filled⟩

theorem Stream.useInput {op : Buffer.Op} {inputBuffer : Buffer} (old : Stream sent w) (met : op.Contract w.conn.inputBuffer)
    (called : op.call w.conn.inputBuffer = some inputBuffer) :
    Stream sent {w with conn := {w.conn with inputBuffer := inputBuffer}} := by
  obtain ⟨_,found,kept,_⟩ := Buffer.Op.call_yields old.input op met
  cases Option.some.inj (found.symm.trans called)
  exact old.frame kept rfl rfl rfl fun live => ⟨live,rfl⟩

theorem Stream.perform (old : Stream sent w) (call : Call) (taken : w.perform call = some after) :
    Stream (sent ++ call.accepted w) after := by
  have same : sent ++ [] = sent := List.append_nil sent
  cases perform_parts taken with
  | @send _ message result connected fits sending =>
    obtain ⟨found,yields,_,kept⟩ := old.sendInLoop message result fits
    cases Option.some.inj (yields.symm.trans sending)
    simpa [Call.accepted,connected] using kept
  | refused closed => simpa [Call.accepted,closed] using old
  | @sendInLoop _ message result fits sending =>
    obtain ⟨found,yields,_,kept⟩ := old.sendInLoop message result fits
    cases Option.some.inj (yields.symm.trans sending)
    exact kept
  | shutdown => exact same.symm ▸ old.shutdown
  | shutdownInLoop => exact same.symm ▸ old.shutdownInLoop
  | forceClose => exact same.symm ▸ old.forceClose
  | startRead => exact same.symm ▸ old.startRead
  | stopRead => exact same.symm ▸ old.stopRead
  | inputBuffer met called => exact same.symm ▸ old.useInput met called

theorem Stream.runFrame (old : Stream sent w) (taken : w.runFrame answer = some after) : Stream sent after := by
  unfold ConnLoop.runFrame at taken
  split at taken
  · cases taken; exact (old.pop _).handleClose
  · cases taken; exact old.pop _
  · split at taken
    · rename_i rest result _ fits
      obtain ⟨_,found,kept⟩ := (old.pop rest).handleRead result fits
      cases Option.some.inj (found.symm.trans taken)
      exact kept
    · cases taken
  · split at taken
    · rename_i rest result _ fits
      obtain ⟨_,found,kept⟩ := (old.pop rest).handleWrite result fits
      cases Option.some.inj (found.symm.trans taken)
      exact kept
    · cases taken
  · cases taken; exact old.pop _
  · cases taken; exact old.frame old.input rfl rfl rfl fun live => ⟨live,rfl⟩
  · cases taken; exact (old.pop _).remove
  · cases taken

theorem Stream.runFunctor (old : Stream sent w) (cb : Functor) : Stream sent (w.runFunctor cb) := by
  cases cb with
  | writeCompleteCallback => exact old.call _
  | highWaterMarkCallback len => exact old.call _
  | forceCloseInLoop => exact old.forceCloseInLoop
  | connectDestroyed => exact old.connectDestroyed

theorem next_stream (old : Stream s.accepted s.loop) (taken : next admits s label = some reached) :
    Stream reached.accepted reached.loop := by
  cases next_step taken with
  | user use _ performed => exact old.perform _ performed
  | epoll_wait => exact old.frame old.input rfl rfl rfl fun live => ⟨live,rfl⟩
  | handleEvent => exact old.frame old.input rfl rfl rfl fun live => ⟨live,rfl⟩
  | frame ran => exact old.runFrame ran
  | removeConnectionInLoop => exact old.frame old.input rfl rfl rfl fun live => ⟨live,rfl⟩
  | functor =>
    rename_i cb rest _ _ _
    have popped : Stream s.accepted {s.loop with pendingFunctors := rest} :=
      old.frame old.input rfl rfl rfl fun live => ⟨live,rfl⟩
    exact popped.runFunctor cb

theorem established_stream (fd highWaterMark : Nat) (complete high : Bool) :
    Stream [] (established fd highWaterMark complete high).loop := by
  have fresh : Buffer.Valid (.new kInitialSize) := Buffer.new_valid kInitialSize
  have empty := Buffer.new_readable kInitialSize
  have idle : (established fd highWaterMark complete high).loop.conn.channel.isWriting = false :=
    (request_isWriting _).trans (Channel.enableReading_writing.trans (Channel.none_not_writing rfl))
  refine ⟨fresh,fresh,empty,fun _ => ?_,fun _ found => (by cases found)⟩
  rw [idle]
  exact iff_of_false (by decide) fun backlog => backlog empty

-- The life of a connection in which handleWrite may also run on its own.
inductive StreamLabel where
  | loop (label : Label)
  | handleWrite (result : WriteResult)

def stream (admits : BitVec 32 → Bool) : Machine Life StreamLabel where
  start := (life admits).start
  next s label := match label with
    | .loop label => next admits s label
    | .handleWrite result =>
      if result.Fits s.loop.conn.outputBuffer.readableBytes then
        (s.loop.handleWrite result).map fun after => {s with loop := after}
      else none

theorem stream_preserves : (stream admits).Preserves (fun _ _ => True) fun s => Stream s.accepted s.loop where
  start := by
    intro _ given
    obtain ⟨fd,highWaterMark,complete,high,rfl⟩ := given
    exact established_stream fd highWaterMark complete high
  step := by
    intro s label after old _ taken
    cases label with
    | loop label => exact next_stream old taken
    | handleWrite result =>
      simp only [stream] at taken
      split at taken
      · rename_i fits
        obtain ⟨loop,wrote,same⟩ := Option.map_eq_some_iff.mp taken
        obtain ⟨_,found,kept⟩ := old.handleWrite result fits
        cases Option.some.inj (found.symm.trans wrote)
        rw [← same]
        exact kept
      · cases taken

-- The direct write that a step makes for a message that is not empty.
def StreamLabel.writes (w : ConnLoop) : StreamLabel → Option DirectResult
  | .loop (.user (.send message result)) =>
    if w.conn.state = .kConnected ∧ message ≠ [] ∧ w.writesDirectly = true then some result else none
  | .loop (.user (.sendInLoop message result)) =>
    if w.conn.state ≠ .kDisconnected ∧ message ≠ [] ∧ w.writesDirectly = true then some result else none
  | _ => none

-- A message is dropped after its direct write or not at all.
def StreamLabel.drops (w : ConnLoop) (label : StreamLabel) : List DirectResult :=
  (label.writes w).toList.filter fun result => !w.accepts result

structure Sending where
  life : Life
  dropped : List DirectResult

def sending (admits : BitVec 32 → Bool) : Machine Sending StreamLabel where
  start s := (life admits).start s.life ∧ s.dropped = []
  next s label := ((stream admits).next s.life label).map fun after => ⟨after,s.dropped ++ label.drops s.life.loop⟩

def resets : DirectResult → Prop
  | .error errno _ => errno = .EPIPE ∨ errno = .ECONNRESET
  | .wrote _ => False

-- ::write fails with another error, and the second test finds one of the two.
def misread : DirectResult → Prop
  | .error errno logged => errno ≠ .EWOULDBLOCK ∧ errno ≠ .EPIPE ∧ errno ≠ .ECONNRESET ∧ (logged = .EPIPE ∨ logged = .ECONNRESET)
  | .wrote _ => False

-- No byte of a message is lost, doubled or moved between the two write paths,
-- unless it is dropped because the peer is gone; neither path ever fails an assert.
structure Delivers (s : Sending) : Prop where
  bytes : s.life.loop.taken ++ s.life.loop.conn.outputBuffer.readable = s.life.accepted.flatten
  dropped : ∀ result ∈ s.dropped, resets result
  interest : s.life.loop.conn.state ≠ .kDisconnected →
    (s.life.loop.conn.channel.isWriting = true ↔ s.life.loop.conn.outputBuffer.readable ≠ [])
  shutdowns : ∀ issued ∈ s.life.loop.shutdowns, issued.1 ≠ .kDisconnected → issued.2 = []
  sends : ∀ data result, result.Fits data.length → (s.life.loop.sendInLoop data result).isSome
  writes : ∀ result, result.Fits s.life.loop.conn.outputBuffer.readableBytes → (s.life.loop.handleWrite result).isSome

def ErrnoKept (s : Sending) (label : StreamLabel) : Prop := ∀ result, label.writes s.life.loop = some result → ¬misread result

theorem Stream.delivers {s : Sending} (old : Stream s.life.accepted s.life.loop) (dropped : ∀ result ∈ s.dropped, resets result) :
    Delivers s := by
  refine ⟨old.bytes,dropped,old.interest,old.shutdowns,?_,?_⟩
  · intro data result fits
    obtain ⟨_,sending,_⟩ := old.sendInLoop data result fits
    exact Option.isSome_of_mem sending
  · intro result fits
    obtain ⟨_,wrote,_⟩ := old.handleWrite result fits
    exact Option.isSome_of_mem wrote

theorem writes_directly {label : StreamLabel} (writes : label.writes w = some result) : w.writesDirectly = true := by
  unfold StreamLabel.writes at writes
  split at writes
  · split at writes
    · rename_i able
      exact able.2.2
    · cases writes
  · split at writes
    · rename_i able
      exact able.2.2
    · cases writes
  · cases writes

-- What is dropped was written directly and found one of the two at the second test.
theorem mem_drops {label : StreamLabel} : result ∈ label.drops w ↔ label.writes w = some result ∧ ∃ errno logged,
    result = .error errno logged ∧ errno ≠ .EWOULDBLOCK ∧ (logged = .EPIPE ∨ logged = .ECONNRESET) := by
  simp only [StreamLabel.drops,List.mem_filter,Option.mem_toList]
  refine and_congr_right fun writes => ?_
  have direct := writes_directly writes
  cases result with
  | wrote n => simp [accepts]
  | error errno logged => simp [accepts,direct]

-- Everything holds throughout a run exactly when no error of a direct write is
-- taken for another one at the second test of errno.
theorem delivers_iff_errno_kept {s final : Sending} {labels : List StreamLabel} (origin : (sending admits).start s)
    (ran : (sending admits).run s labels = some final) :
    (sending admits).Throughout Delivers s labels ↔ (sending admits).Meets ErrnoKept s labels := by
  have sound : ∀ s : Sending, Stream s.life.accepted s.life.loop ∧ (∀ result ∈ s.dropped, resets result) → Delivers s :=
    fun s known => known.1.delivers known.2
  have parts : ∀ {s after : Sending} {label}, (sending admits).next s label = some after →
      (stream admits).next s.life label = some after.life ∧ after.dropped = s.dropped ++ label.drops s.life.loop := by
    intro s after label taken
    obtain ⟨life,step,same⟩ := Option.map_eq_some_iff.mp taken
    rw [← same]
    exact ⟨step,rfl⟩
  have valid : Stream s.life.accepted s.life.loop := (@stream_preserves admits).start _ origin.1
  refine Machine.throughout_iff_meets sound ?_ ?_ ⟨valid,by simp [origin.2]⟩ ran
  · intro s label after known met taken
    obtain ⟨step,dropped⟩ := parts taken
    refine ⟨stream_preserves.step _ _ _ known.1 trivial step,fun result member => ?_⟩
    rw [dropped] at member
    rcases List.mem_append.mp member with earlier | now
    · exact known.2 result earlier
    · obtain ⟨writes,errno,logged,rfl,blocked,tested⟩ := mem_drops.mp now
      by_contra other
      obtain ⟨piped,reset⟩ := not_or.mp other
      exact met _ writes ⟨blocked,piped,reset,tested⟩
  · intro s label after known late taken delivers
    obtain ⟨_,dropped⟩ := parts taken
    refine late fun result writes wrong => ?_
    cases result with
    | wrote n => exact wrong
    | error errno logged =>
      obtain ⟨blocked,piped,reset,tested⟩ := wrong
      have lost := delivers.dropped (.error errno logged) (by
        rw [dropped]
        exact List.mem_append_right _ (mem_drops.mpr ⟨writes,errno,logged,rfl,blocked,tested⟩))
      exact lost.elim piped reset

-- A message goes partly to the kernel at once; the next one waits behind it.
def partialWrites : List StreamLabel :=
  [.loop (.user (.send [1,2,3,4] (.wrote 1))),.handleWrite (.wrote 1),.loop (.user (.sendInLoop [5] (.wrote 1))),
    .handleWrite (.wrote 3),.loop (.user (.send [6] (.error .EPIPE .EPIPE)))]

theorem delivered_after_partial_writes : ∃ s, (sending fun _ => true).run ⟨established 3 2 false true,[]⟩ partialWrites = some s ∧
    s.life.accepted = [[1,2,3,4],[5]] ∧ s.dropped = [.error .EPIPE .EPIPE] ∧ Delivers s := by
  have found : ((sending fun _ => true).run ⟨established 3 2 false true,[]⟩ partialWrites).map (fun s => (s.life.accepted,s.dropped)) =
      some ([[1,2,3,4],[5]],[.error .EPIPE .EPIPE]) := by decide +kernel
  obtain ⟨s,ran,parts⟩ := Option.map_eq_some_iff.mp found
  simp only [Prod.mk.injEq] at parts
  have origin : (sending fun _ => true).start ⟨established 3 2 false true,[]⟩ := ⟨⟨_,_,_,_,rfl⟩,rfl⟩
  have through := (delivers_iff_errno_kept origin ran).mpr (Machine.meets_labels ?_)
  · exact ⟨s,ran,parts.1,parts.2,through.last ran⟩
  · intro label member s result writes
    simp only [partialWrites,List.mem_cons,List.not_mem_nil,or_false] at member
    rcases member with rfl | rfl | rfl | rfl | rfl <;>
      simp only [StreamLabel.writes,Option.ite_none_right_eq_some,Option.some.injEq,reduceCtorEq] at writes <;>
      simp [misread,← writes.2]

-- ::write fails with ETIMEDOUT (110), the log line leaves EPIPE in errno.
theorem message_dropped_after_timeout : ∃ s, (sending fun _ => true).run ⟨established 3 1024 false false,[]⟩
      [.loop (.frame .none),.loop (.user (.send [1,2] (.error (.other 110) .EPIPE)))] = some s ∧
    s.life.accepted = [] ∧ s.life.loop.taken ++ s.life.loop.conn.outputBuffer.readable = [] ∧
    s.dropped = [.error (.other 110) .EPIPE] ∧ ¬Delivers s := by
  have found : ((sending fun _ => true).run ⟨established 3 1024 false false,[]⟩
      [.loop (.frame .none),.loop (.user (.send [1,2] (.error (.other 110) .EPIPE)))]).map (fun s =>
        (s.life.accepted,s.life.loop.taken ++ s.life.loop.conn.outputBuffer.readable,s.dropped)) =
      some ([],[],[.error (.other 110) .EPIPE]) := by decide +kernel
  obtain ⟨s,ran,parts⟩ := Option.map_eq_some_iff.mp found
  simp only [Prod.mk.injEq] at parts
  obtain ⟨accepted,bytes,dropped⟩ := parts
  refine ⟨s,ran,accepted,bytes,dropped,fun delivers => ?_⟩
  have lost := delivers.dropped (.error (.other 110) .EPIPE) (by rw [dropped]; exact List.mem_singleton_self _)
  simp [resets] at lost

end NewMuduo.ConnLoop
