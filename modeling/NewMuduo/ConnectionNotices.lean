import NewMuduo.ConnectionStream

namespace NewMuduo.ConnLoop
variable {w after : ConnLoop} {sent : List (List UInt8)} {labels middle : List Write}

def backlog (w : ConnLoop) : Nat := w.conn.outputBuffer.readableBytes

-- What sendInLoop and handleWrite read and never assign.
def settings (w : ConnLoop) : StateE × Bool × Bool × Nat :=
  (w.conn.state,w.conn.writeCompleteCallback,w.conn.highWaterMarkCallback,w.conn.highWaterMark)

def Notifying (w : ConnLoop) : Prop :=
  w.conn.state = .kConnected ∧ w.conn.writeCompleteCallback = true ∧ w.conn.highWaterMarkCallback = true

instance : Decidable w.Notifying := inferInstanceAs (Decidable (_ ∧ _ ∧ _))

-- A call of one of the two functions, with the answer of ::write if it writes.
inductive Write where
  | sendInLoop (data : List UInt8) (result : DirectResult)
  | handleWrite (result : WriteResult)
  deriving DecidableEq, Repr

namespace Write

-- The bytes that are not written yet when the call is made.
def unwritten (w : ConnLoop) : Write → Nat
  | .sendInLoop data _ => w.backlog + data.length
  | .handleWrite _ => w.backlog

def Fits (w : ConnLoop) : Write → Prop
  | .sendInLoop data result => result.Fits data.length
  | .handleWrite result => result.Fits w.backlog

instance {label : Write} : Decidable (label.Fits w) := by
  cases label <;> (unfold Fits; infer_instance)

def writes (w : ConnLoop) : Write → Option WriteResult
  | .sendInLoop _ result => if w.writesDirectly then some result.write else none
  | .handleWrite result => if w.conn.channel.isWriting then some result else none

def TakesLast (w : ConnLoop) (label : Write) : Prop := label.writes w = some (.wrote (label.unwritten w))

instance {label : Write} : Decidable (label.TakesLast w) := inferInstanceAs (Decidable (_ = _))

def call (w : ConnLoop) : Write → Option ConnLoop
  | .sendInLoop data result => w.sendInLoop data result
  | .handleWrite result => w.handleWrite result

end Write

def Crosses (w after : ConnLoop) : Prop := w.backlog < w.conn.highWaterMark ∧ w.conn.highWaterMark ≤ after.backlog

instance : Decidable (w.Crosses after) := inferInstanceAs (Decidable (_ ∧ _))

-- A step has put a high-water notification into pendingFunctors_.
def Announces (w after : ConnLoop) : Prop :=
  ∃ len, .highWaterMarkCallback len ∈ after.pendingFunctors.drop w.pendingFunctors.length

def highWater (w after : ConnLoop) : List Functor :=
  if w.Crosses after then [.highWaterMarkCallback after.backlog] else []

def writeComplete (w : ConnLoop) (label : Write) : List Functor :=
  if label.TakesLast w then [.writeCompleteCallback] else []

-- Any number of calls, from any state that a connection can come to.
def writing : Machine ConnLoop Write where
  start w := w.Notifying ∧ ∃ admits s, (stream admits).Reached s ∧ s.loop = w
  next w label := if label.Fits w then label.call w else none

theorem highWater_fewer (fewer : after.backlog ≤ w.backlog) : w.highWater after = [] := by
  rw [highWater,if_neg]
  rintro ⟨low,high⟩
  omega

@[simp] theorem request_settings (op : Channel.Op) : (w.request op).settings = w.settings := rfl
@[simp] theorem request_backlog (op : Channel.Op) : (w.request op).backlog = w.backlog := rfl
@[simp] theorem request_pending (op : Channel.Op) : (w.request op).pendingFunctors = w.pendingFunctors := rfl

theorem append_backlog (valid : w.conn.outputBuffer.Valid) (rest : List UInt8) :
    ∃ outputBuffer, w.conn.outputBuffer.append rest = some outputBuffer ∧
      outputBuffer.readableBytes = w.backlog + rest.length := by
  obtain ⟨outputBuffer,appended,kept,contents⟩ := Buffer.append_yields valid rest
  refine ⟨outputBuffer,appended,?_⟩
  rw [← Buffer.readable_length kept,contents,List.length_append,Buffer.readable_length valid]
  rfl

theorem queueWriteComplete_set (set : w.conn.writeCompleteCallback = true) :
    w.queueWriteComplete = {w with pendingFunctors := w.pendingFunctors ++ [.writeCompleteCallback]} := by
  rw [queueWriteComplete,if_pos set,queueInLoop]

theorem written_notices (ready : w.Notifying) :
    w.written.settings = w.settings ∧ w.written.backlog = w.backlog ∧
      w.written.pendingFunctors = w.pendingFunctors ++ [.writeCompleteCallback] := by
  have queued := queueWriteComplete_set (w := w.request .disableWriting) ready.2.1
  have connected : (w.request .disableWriting).queueWriteComplete.conn.state ≠ .kDisconnecting := by
    rw [queued]
    exact ready.1 ▸ by decide
  unfold written
  rw [if_neg connected,queued]
  exact ⟨rfl,rfl,rfl⟩

-- The second half of sendInLoop: the notification is decided from the length
-- before the append and from what the append will add.
theorem bufferRest_notices (valid : w.conn.outputBuffer.Valid) (set : w.conn.highWaterMarkCallback = true)
    {nwrote remaining : Nat} (whole : nwrote + remaining = data.length) :
    ∃ after, w.bufferRest data nwrote remaining = some after ∧ after.settings = w.settings ∧
      after.backlog = w.backlog + remaining ∧ after.pendingFunctors = w.pendingFunctors ++ w.highWater after := by
  have rest : ((data.drop nwrote).take remaining).length = remaining := by
    rw [List.length_take,List.length_drop]
    omega
  obtain ⟨outputBuffer,appended,length⟩ := append_backlog valid ((data.drop nwrote).take remaining)
  rw [rest] at length
  have left : ∀ noted : List Functor,
      let kept : ConnLoop := {w with pendingFunctors := noted,conn := {w.conn with outputBuffer := outputBuffer}}
      let after := if !kept.conn.channel.isWriting then kept.request .enableWriting else kept
      after.settings = w.settings ∧ after.backlog = w.backlog + remaining ∧ after.pendingFunctors = noted := by
    intro noted
    dsimp only
    split
    · exact ⟨rfl,length,rfl⟩
    · exact ⟨rfl,length,rfl⟩
  unfold bufferRest
  dsimp only
  split
  · rename_i crossed
    obtain ⟨high,low,_⟩ := crossed
    obtain ⟨settings,grown,pending⟩ := left (w.pendingFunctors ++ [.highWaterMarkCallback (w.backlog + remaining)])
    refine ⟨_,by simp only [queueInLoop,appended]; rfl,settings,grown,pending.trans ?_⟩
    rw [highWater,if_pos ⟨low,by rw [grown]; exact high⟩,grown]
  · rename_i within
    obtain ⟨settings,grown,pending⟩ := left w.pendingFunctors
    refine ⟨_,by simp only [appended]; rfl,settings,grown,pending.trans ?_⟩
    rw [highWater,if_neg,List.append_nil]
    rintro ⟨low,high⟩
    rw [grown] at high
    exact within ⟨high,low,set⟩

-- What a call leaves: nothing but these notifications is queued, and the last
-- byte taken leaves no backlog.
structure Noted (w : ConnLoop) (label : Write) (after : ConnLoop) : Prop where
  settings : after.settings = w.settings
  pending : after.pendingFunctors = w.pendingFunctors ++ w.writeComplete label ++ w.highWater after
  drained : label.TakesLast w → after.backlog = 0

-- Bytes remain, and none were added.
theorem Noted.partly {label : Write} (settings : after.settings = w.settings) (pending : after.pendingFunctors = w.pendingFunctors)
    (fewer : after.backlog ≤ w.backlog) (more : ¬label.TakesLast w) : Noted w label after := by
  refine ⟨settings,?_,fun last => absurd last more⟩
  rw [writeComplete,if_neg more,highWater_fewer fewer,pending,List.append_nil,List.append_nil]

theorem Noted.completed {label : Write} (settings : after.settings = w.settings) (last : label.TakesLast w)
    (pending : after.pendingFunctors = w.pendingFunctors ++ [.writeCompleteCallback]) (drained : after.backlog = 0) :
    Noted w label after := by
  refine ⟨settings,?_,fun _ => drained⟩
  rw [writeComplete,if_pos last,highWater_fewer (drained ▸ Nat.zero_le _),pending,List.append_nil]

theorem Noted.buffered {written : ConnLoop} {label : Write} (valid : w.conn.outputBuffer.Valid) (ready : w.Notifying)
    {nwrote remaining : Nat} (whole : nwrote + remaining = data.length) (more : ¬label.TakesLast w)
    (same : written = {w with taken := written.taken}) :
    ∃ after, written.bufferRest data nwrote remaining = some after ∧ Noted w label after := by
  have kept : written.conn = w.conn := by rw [same]
  have queue : written.pendingFunctors = w.pendingFunctors := by rw [same]
  obtain ⟨after,called,settings,_,pending⟩ := bufferRest_notices (w := written) (kept ▸ valid)
    (by rw [kept]; exact ready.2.2) whole
  have high : written.highWater after = w.highWater after := by rw [same]; rfl
  refine ⟨after,called,settings.trans (by rw [same]; rfl),?_,fun last => absurd last more⟩
  rw [pending,high,queue,writeComplete,if_neg more,List.append_nil]

theorem Stream.sendInLoop_notices (old : Stream sent w) (ready : w.Notifying) {result : DirectResult}
    (fits : result.Fits data.length) :
    ∃ after, w.sendInLoop data result = some after ∧ Noted w (.sendInLoop data result) after := by
  have live : w.conn.state ≠ .kDisconnected := by rw [ready.1]; decide
  unfold ConnLoop.sendInLoop
  rw [if_neg live]
  unfold directWrite
  cases direct : w.writesDirectly with
  | false =>
    have more : ¬Write.TakesLast w (.sendInLoop data result) := by simp [Write.TakesLast,Write.writes,direct]
    simp only [Bool.false_eq_true,if_false,Nat.le_refl,if_true,Bool.not_false,true_and]
    split
    · exact Noted.buffered old.output ready (Nat.zero_add _) more rfl
    · exact ⟨w,rfl,Noted.partly rfl rfl (Nat.le_refl _) more⟩
  | true =>
    have idle : w.backlog = 0 := by simpa [writesDirectly,backlog] using (Bool.and_eq_true_iff.mp direct).2
    cases result with
    | error errno logged =>
      have more : ¬Write.TakesLast w (.sendInLoop data (.error errno logged)) := by
        simp [Write.TakesLast,Write.writes,direct,DirectResult.write]
      simp only [if_true,Nat.le_refl]
      split
      · exact Noted.buffered old.output ready (Nat.zero_add _) more rfl
      · exact ⟨w,rfl,Noted.partly rfl rfl (Nat.le_refl _) more⟩
    | wrote nwrote =>
      have within : nwrote ≤ data.length := fits
      have last : Write.TakesLast w (.sendInLoop data (.wrote nwrote)) ↔ data.length - nwrote = 0 := by
        simp only [Write.TakesLast,Write.writes,direct,if_true,Write.unwritten,idle,Nat.zero_add,Option.some.injEq,
          DirectResult.write,WriteResult.wrote.injEq]
        omega
      simp only [if_true,Nat.sub_le]
      by_cases ended : data.length - nwrote = 0
      · -- The whole message is written; nothing is appended.
        have queued := queueWriteComplete_set (w := {w with taken := w.taken ++ data.take nwrote}) ready.2.1
        rw [if_pos ended,if_neg (by omega),queued]
        exact ⟨_,rfl,Noted.completed rfl (last.mpr ended) rfl idle⟩
      · rw [if_neg ended,if_pos ⟨rfl,Nat.pos_of_ne_zero ended⟩]
        exact Noted.buffered old.output ready (Nat.add_sub_cancel' within) (fun all => ended (last.mp all)) rfl

theorem Stream.handleWrite_notices (old : Stream sent w) (ready : w.Notifying) {result : WriteResult}
    (fits : result.Fits w.backlog) :
    ∃ after, w.handleWrite result = some after ∧ Noted w (.handleWrite result) after := by
  have live : w.conn.state ≠ .kDisconnected := by rw [ready.1]; decide
  unfold ConnLoop.handleWrite
  cases waits : w.conn.channel.isWriting with
  | false => exact ⟨w,rfl,Noted.partly rfl rfl (Nat.le_refl _) (by simp [Write.TakesLast,Write.writes,waits])⟩
  | true =>
    have pending : w.backlog ≠ 0 := fun none => (old.interest live).mp waits ((backlog_none old.output).mp none)
    rw [if_pos rfl]
    cases result with
    | error errno => exact ⟨w,rfl,Noted.partly rfl rfl (Nat.le_refl _) (by simp [Write.TakesLast,Write.writes,waits])⟩
    | wrote n =>
      have within : n ≤ w.conn.outputBuffer.readableBytes := fits
      have last : Write.TakesLast w (.handleWrite (.wrote n)) ↔ n = w.backlog := by
        simp [Write.TakesLast,Write.writes,waits,Write.unwritten]
      by_cases takes : 0 < n
      · obtain ⟨outputBuffer,retrieved,kept,contents⟩ := Buffer.retrieve_yields old.output within
        have left : outputBuffer.readableBytes = w.backlog - n := by
          rw [← Buffer.readable_length kept,contents,List.length_drop,Buffer.readable_length old.output]
          rfl
        have all : Write.TakesLast w (.handleWrite (.wrote n)) ↔ outputBuffer.readableBytes = 0 := by
          have within : n ≤ w.backlog := within
          rw [last,left]
          omega
        simp only [if_pos takes,retrieved,Option.bind_eq_bind,Option.bind_some]
        refine ⟨_,rfl,?_⟩
        by_cases drained : outputBuffer.readableBytes = 0
        · obtain ⟨settings,same,queued⟩ := written_notices (w := {w with
            taken := w.taken ++ w.conn.outputBuffer.readable.take n
            conn := {w.conn with outputBuffer := outputBuffer}}) ready
          rw [if_pos drained]
          exact Noted.completed settings (all.mpr drained) queued (same.trans drained)
        · rw [if_neg drained]
          exact Noted.partly rfl rfl (Nat.le_trans (Nat.le_of_eq left) (Nat.sub_le _ _)) fun taken => drained (all.mp taken)
      · have more : ¬Write.TakesLast w (.handleWrite (.wrote n)) := fun all => pending ((last.mp all).symm.trans (by omega))
        simp only [if_neg takes]
        exact ⟨w,rfl,Noted.partly rfl rfl (Nat.le_refl _) more⟩

-- Both functions pass their asserts on whatever the writes give.
theorem Stream.call_notices (old : Stream sent w) (ready : w.Notifying) {label : Write} (fits : label.Fits w) :
    ∃ after, label.call w = some after ∧ Noted w label after := by
  cases label with
  | sendInLoop data result => exact old.sendInLoop_notices ready fits
  | handleWrite result => exact old.handleWrite_notices ready fits

theorem Stream.calls (old : Stream sent w) {label : Write} (fits : label.Fits w) (called : label.call w = some after) :
    ∃ sent, Stream sent after := by
  cases label with
  | sendInLoop data result =>
    obtain ⟨_,found,_,kept⟩ := old.sendInLoop data result fits
    cases Option.some.inj (found.symm.trans called)
    exact ⟨_,kept⟩
  | handleWrite result =>
    obtain ⟨_,found,kept⟩ := old.handleWrite result fits
    cases Option.some.inj (found.symm.trans called)
    exact ⟨_,kept⟩

theorem writing_parts {label : Write} (taken : writing.next w label = some after) :
    label.Fits w ∧ label.call w = some after := by
  simp only [writing] at taken
  split at taken
  · rename_i fits
    exact ⟨fits,taken⟩
  · cases taken

theorem Noted.notifying {label : Write} (noted : Noted w label after) (ready : w.Notifying) : after.Notifying := by
  have kept := noted.settings
  simp only [ConnLoop.settings,Prod.mk.injEq] at kept
  exact ⟨kept.1.trans ready.1,kept.2.1.trans ready.2.1,kept.2.2.1.trans ready.2.2⟩

theorem Noted.mark {label : Write} (noted : Noted w label after) : after.conn.highWaterMark = w.conn.highWaterMark :=
  congrArg (·.2.2.2) noted.settings

theorem Noted.announces {label : Write} (noted : Noted w label after) : w.Announces after ↔ w.Crosses after := by
  unfold Announces
  rw [noted.pending,List.append_assoc,List.drop_left,writeComplete,highWater]
  constructor
  · rintro ⟨len,found⟩
    by_contra within
    rw [if_neg within,List.append_nil] at found
    split at found
    · cases List.mem_singleton.mp found
    · cases found
  · intro crossed
    rw [if_pos crossed]
    exact ⟨_,List.mem_append_right _ (List.mem_singleton_self _)⟩

-- What every state of a run has, with the mark that none of its calls changes.
structure Steady (mark : Nat) (w : ConnLoop) : Prop where
  stream : ∃ sent, Stream sent w
  notifying : w.Notifying
  mark : w.conn.highWaterMark = mark

theorem Steady.noted {mark : Nat} {label : Write} (old : Steady mark w) (taken : writing.next w label = some after) :
    Noted w label after := by
  obtain ⟨fits,called⟩ := writing_parts taken
  obtain ⟨_,stream⟩ := old.stream
  obtain ⟨_,found,noted⟩ := stream.call_notices old.notifying fits
  cases Option.some.inj (found.symm.trans called)
  exact noted

theorem Steady.step {mark : Nat} {label : Write} (old : Steady mark w) (taken : writing.next w label = some after) :
    Steady mark after := by
  obtain ⟨fits,called⟩ := writing_parts taken
  obtain ⟨_,stream⟩ := old.stream
  have noted := old.noted taken
  exact ⟨stream.calls fits called,noted.notifying old.notifying,noted.mark.trans old.mark⟩

theorem Steady.run {mark : Nat} {s : ConnLoop} (old : Steady mark w) (ran : writing.run w labels = some s) : Steady mark s := by
  have met : writing.Meets (fun _ _ => True) w labels := Machine.meets_labels fun _ _ _ => trivial
  exact Machine.run_meets (fun _ _ _ ready _ taken => ready.step taken) old met ran

theorem start_steady (origin : writing.start w) : Steady w.conn.highWaterMark w := by
  obtain ⟨ready,_,_,path,rfl⟩ := origin
  exact ⟨⟨_,stream_preserves.reached path⟩,ready,rfl⟩

-- writeCompleteCallback_ is queued by the write that takes the last byte,
-- highWaterMarkCallback_ by the append that brings the backlog up to the mark.
theorem notices_follow_backlog {s : ConnLoop} (origin : writing.start w) (ran : writing.run w labels = some s) :
    (∀ label : Write, label.Fits s → (writing.next s label).isSome) ∧
    (∀ label after, writing.next s label = some after →
      after.pendingFunctors = s.pendingFunctors ++
        (if label.TakesLast s then [.writeCompleteCallback] else []) ++
        (if s.Crosses after then [.highWaterMarkCallback after.backlog] else []) ∧
      (label.TakesLast s → after.backlog = 0) ∧
      after.conn.highWaterMark = w.conn.highWaterMark) ∧
    (∀ first noticed middle later last again, writing.next s first = some noticed → s.Announces noticed →
      writing.run noticed middle = some later → writing.next later last = some again → later.Announces again →
      ∃ n below, n ≤ middle.length ∧ writing.run noticed (middle.take n) = some below ∧
        below.backlog < w.conn.highWaterMark) := by
  have ready := (start_steady origin).run ran
  refine ⟨fun label fits => ?_,fun label after taken => ?_,?_⟩
  · obtain ⟨_,stream⟩ := ready.stream
    obtain ⟨_,called,_⟩ := stream.call_notices ready.notifying fits
    simp only [writing,if_pos fits,called,Option.isSome_some]
  · have noted := ready.noted taken
    exact ⟨noted.pending,noted.drained,noted.mark.trans ready.mark⟩
  · intro first noticed middle later last again taken _ between next announced
    have after := (ready.step taken).run between
    have crossed := (after.noted next).announces.mp announced
    refine ⟨middle.length,later,Nat.le_refl _,by rw [List.take_length]; exact between,?_⟩
    rw [← after.mark]
    exact crossed.1

-- Three of four bytes stay behind and drain in two writes; an empty message
-- completes at once, and the next backlog is announced again.
theorem notices_follow_two_backlogs :
    ∃ s after : ConnLoop, writing.run (established 3 2 true true).loop
        [.sendInLoop [1,2,3,4] (.wrote 1),.handleWrite (.wrote 2),.handleWrite (.wrote 1),.sendInLoop [] (.wrote 0)] = some s ∧
      s.pendingFunctors = [.highWaterMarkCallback 3,.writeCompleteCallback,.writeCompleteCallback] ∧
      writing.next s (.sendInLoop [5,6,7] (.wrote 1)) = some after ∧
      after.pendingFunctors = s.pendingFunctors ++ [.highWaterMarkCallback 2] := by
  have found : (writing.run (established 3 2 true true).loop
        [.sendInLoop [1,2,3,4] (.wrote 1),.handleWrite (.wrote 2),.handleWrite (.wrote 1),.sendInLoop [] (.wrote 0)]).map
        (fun s => (s.pendingFunctors,decide (Write.TakesLast s (.sendInLoop [5,6,7] (.wrote 1))),
          (writing.next s (.sendInLoop [5,6,7] (.wrote 1))).map fun after => (after.backlog,decide (s.Crosses after)))) =
      some ([.highWaterMarkCallback 3,.writeCompleteCallback,.writeCompleteCallback],false,some (2,true)) := by decide +kernel
  obtain ⟨s,ran,parts⟩ := Option.map_eq_some_iff.mp found
  simp only [Prod.mk.injEq,Option.map_eq_some_iff,decide_eq_false_iff_not,decide_eq_true_eq] at parts
  obtain ⟨pending,more,after,taken,backlog,crossed⟩ := parts
  have origin : writing.start (established 3 2 true true).loop :=
    ⟨by decide,fun _ => true,_,Machine.Reached.start ⟨3,2,true,true,rfl⟩,rfl⟩
  have noted := ((notices_follow_backlog origin ran).2.1 _ after taken).1
  rw [if_neg more,if_pos crossed,backlog,List.append_nil] at noted
  exact ⟨s,after,ran,pending,taken,noted⟩

end NewMuduo.ConnLoop
