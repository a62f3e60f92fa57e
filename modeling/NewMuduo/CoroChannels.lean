import NewMuduo.Awaitables

namespace NewMuduo

theorem callbacks_userCode (revents : BitVec 32) : Frame.userCode ∉ ConnLoop.callbacks revents := by
  unfold ConnLoop.callbacks
  simp only [List.mem_append,not_or]
  refine ⟨⟨⟨?_,?_⟩,?_⟩,?_⟩ <;> split <;> simp

theorem isSome_of_any {channel : Option Channel} {p : Channel → Bool} (polled : channel.any p = true) :
    channel.isSome = true := by
  cases channel with
  | none => cases polled
  | some _ => rfl

namespace CoroConn
variable {w after : CoroConn} {label : Label}

-- A live connection has its Channel, a running handleEventWithGuard has its
-- Channel, and dataCallback_ is only ever the innermost frame.
structure Sound (w : CoroConn) : Prop where
  intact : w.torn = false
  attached : w.destroyed = false → w.conn.connected = true → w.conn.channel.channel.isSome = true
  handling : w.eventHandling = true → w.conn.channel.channel.isSome = true
  running : w.frames ≠ [] → w.eventHandling = true
  innermost : Frame.userCode ∉ w.frames.tail

-- The condition on a step of a connection: EPOLLHUP, end of stream and a failed
-- write find connected_ cleared, and dataCallback_ leaves another owner behind.
def KeepsChannel (w : CoroConn) : Label → Prop
  | .frame .none => match w.frames with
    | .hup :: _ => w.conn.connected = false
    | .userCode :: _ => w.mapped = true ∨ 0 < w.copies
    | _ => True
  | .frame (.read (.bytes [])) => w.conn.connected = false
  | .frame (.write (.error errno)) =>
    errno = .EWOULDBLOCK ∨ w.conn.outputBuffer.readableBytes = 0 ∨ w.conn.connected = false
  | _ => True

theorem release_owned (owned : w.owned = true) : w.release = w := by
  unfold release
  rw [if_pos owned]

theorem owned_of (owner : w.mapped = true ∨ 0 < w.copies) : w.owned = true := by
  unfold owned
  rcases owner with entry | held
  · simp [entry]
  · simp [held]

theorem owned_of_userCode (runs : Frame.userCode ∈ w.frames) : w.owned = true := by
  unfold owned
  simp [runs]

-- The frames and the Channel of the connection after a callback.
theorem Sound.pop (old : Sound w) (top : w.frames = frame :: rest) : Sound (w.pop rest) := by
  refine ⟨old.intact,old.attached,old.handling,fun _ => old.running (by rw [top]; exact List.cons_ne_nil _ _),?_⟩
  have outer := old.innermost
  rw [top] at outer
  exact fun deeper => outer (List.mem_of_mem_tail deeper)

theorem Sound.channel (old : Sound w) (conn : CoroTcpConnection)
    (connected : conn.connected = true → w.conn.connected = true)
    (kept : w.conn.channel.channel.isSome = true → conn.channel.channel.isSome = true) : Sound {w with conn := conn} :=
  ⟨old.intact,fun alive live => kept (old.attached alive (connected live)),fun runs => kept (old.handling runs),
    old.running,old.innermost⟩

theorem enableWriting_isSome {c : CoroChannel} (present : c.channel.isSome = true) : c.enableWriting.channel.isSome = true := by
  unfold CoroChannel.enableWriting CoroChannel.request CoroChannel.attach
  rw [Option.isSome_map]
  split
  · rfl
  · exact present

theorem request_isSome {c : CoroChannel} (op : Channel.Op) (present : c.channel.isSome = true) :
    (c.request op).channel.isSome = true := by
  unfold CoroChannel.request
  rw [Option.isSome_map]
  exact present

theorem Sound.closed (old : Sound w) (closed : w.conn.connected = false) : Sound w.handleClose :=
  (handleClose_closed closed).symm ▸ old

theorem Sound.disableWriting (old : Sound w) : Sound w.disableWriting :=
  old.channel _ (fun live => live) (request_isSome _)

-- With no event under way the connection may go.
theorem Sound.release (old : Sound w) (idle : w.eventHandling = true → Frame.userCode ∈ w.frames) : Sound w.release := by
  cases handling : w.eventHandling with
  | true =>
    rw [release_owned (owned_of_userCode (idle handling))]
    exact old
  | false =>
    unfold CoroConn.release
    split
    · exact old
    · refine ⟨by simp [removeChannel,handling,old.intact],fun alive => (by cases alive),?_,?_,?_⟩
      · simp [removeChannel,handling]
      · simpa [removeChannel,handling] using old.running
      · simpa [removeChannel,handling] using old.innermost

theorem Sound.closeCallback (old : Sound w) (idle : w.eventHandling = true → Frame.userCode ∈ w.frames) :
    Sound w.closeCallback := by
  have erased : Sound {w with closes := w.closes + 1,mapped := false} :=
    ⟨old.intact,old.attached,old.handling,old.running,old.innermost⟩
  exact erased.release idle

theorem userCode_of_userRuns (runs : w.userRuns = true) (handling : w.eventHandling = true) : Frame.userCode ∈ w.frames := by
  unfold userRuns at runs
  rw [handling] at runs
  exact List.mem_of_mem_head? (by simpa using runs)

theorem keepsChannel_data (some_data : data ≠ []) : KeepsChannel w (.frame (.read (.bytes data))) := by
  cases data with
  | nil => exact absurd rfl some_data
  | cons byte more => trivial

theorem Sound.step (old : Sound w) (met : KeepsChannel w label) (user : label.byUser = true → w.userRuns = true)
    (taken : Step w label after) : Sound after := by
  cases taken with
  | event idle polled =>
    exact ⟨old.intact,old.attached,fun _ => isSome_of_any polled,fun _ => rfl,fun deeper => callbacks_userCode _ (List.mem_of_mem_tail deeper)⟩
  | hup top =>
    have closed : w.conn.connected = false := by simpa only [KeepsChannel,top] using met
    exact (old.pop top).closed closed
  | error top => exact old.pop top
  | @eof rest top =>
    have popped := old.pop top
    have noted : Sound {w.pop rest with eof := true} :=
      ⟨popped.intact,popped.attached,popped.handling,popped.running,popped.innermost⟩
    exact noted.closed met
  | data top _ _ _ =>
    have popped := old.pop top
    have handling := old.running (by rw [top]; exact List.cons_ne_nil _ _)
    have outer := old.innermost
    rw [top] at outer
    exact ⟨popped.intact,popped.attached,popped.handling,fun _ => handling,outer⟩
  | unread top _ _ _ => exact (old.pop top).channel _ (fun live => live) fun present => present
  | readError top => exact old.pop top
  | idle top _ => exact (old.pop top).disableWriting
  | wrote top _ _ _ _ =>
    have popped := old.pop top
    exact ⟨popped.intact,popped.attached,popped.handling,popped.running,popped.innermost⟩
  | drained top _ _ _ _ =>
    have popped := old.pop top
    exact Sound.disableWriting ⟨popped.intact,popped.attached,popped.handling,popped.running,popped.innermost⟩
  | blocked top _ => exact old.pop top
  | writeError top backlog fatal =>
    have closed : w.conn.connected = false := (met.resolve_left fatal).resolve_left backlog
    exact (old.pop top).closed closed
  | @returned rest top =>
    have owner : w.mapped = true ∨ 0 < w.copies := by simpa only [KeepsChannel,top] using met
    rw [release_owned (w := w.pop rest) (owned_of owner)]
    exact old.pop top
  | handled handling empty =>
    exact ⟨old.intact,old.attached,fun runs => (by cases runs),fun some_frame => absurd empty some_frame,old.innermost⟩
  | refused _ => exact old
  | sent _ _ =>
    split
    · have noted := old.channel {w.conn with writing := true,channel := w.conn.channel.enableWriting}
        (fun live => live) enableWriting_isSome
      exact ⟨noted.intact,noted.attached,noted.handling,noted.running,noted.innermost⟩
    · exact ⟨old.intact,old.attached,old.handling,old.running,old.innermost⟩
  | shutdown => exact ⟨old.intact,fun _ live => (by cases live),old.handling,old.running,old.innermost⟩
  | @connectionLoop threw _ =>
    have ended : Sound {w with finished := true} := ⟨old.intact,old.attached,old.handling,old.running,old.innermost⟩
    cases threw with
    | true => exact ended
    | false =>
      have closed := ended.channel {w.conn with connected := false} (fun live => (by cases live)) fun present => present
      exact closed.closeCallback (userCode_of_userRuns (user rfl))
  | copy => exact ⟨old.intact,old.attached,old.handling,old.running,old.innermost⟩
  | drop _ =>
    have fewer : Sound {w with copies := w.copies - 1} := ⟨old.intact,old.attached,old.handling,old.running,old.innermost⟩
    exact fewer.release (userCode_of_userRuns (user rfl))

theorem release_torn (torn : w.torn = true) : w.release.torn = true := by
  unfold release
  split
  · exact torn
  · simp [removeChannel,torn]

theorem removeChannel_torn (handling : w.eventHandling = true) (present : w.conn.channel.channel.isSome = true) :
    w.removeChannel.torn = true := by
  simp [removeChannel,handling,present]

theorem handleClose_torn (handling : w.eventHandling = true) (live : w.conn.connected = true)
    (present : w.conn.channel.channel.isSome = true) : w.handleClose.torn = true := by
  unfold handleClose
  rw [if_pos live]
  exact release_torn (removeChannel_torn handling (request_isSome .disableAll present))

-- A step that misses the condition destroys the Channel under its own event.
theorem Sound.broken (old : Sound w) (alive : w.destroyed = false) (missed : ¬KeepsChannel w label)
    (taken : Step w label after) : after.torn = true := by
  have runs : ∀ {frame rest}, w.frames = frame :: rest → w.eventHandling = true :=
    fun top => old.running (by rw [top]; exact List.cons_ne_nil _ _)
  cases taken with
  | hup top =>
    have live : w.conn.connected = true := by simpa only [KeepsChannel,top,Bool.not_eq_false] using missed
    exact handleClose_torn (runs top) live (old.attached alive live)
  | eof top =>
    have live : w.conn.connected = true := Bool.not_eq_false _ ▸ missed
    exact handleClose_torn (runs top) live (old.attached alive live)
  | writeError top _ _ =>
    have live : w.conn.connected = true := Bool.not_eq_false _ ▸ (not_or.mp (not_or.mp missed).2).2
    exact handleClose_torn (runs top) live (old.attached alive live)
  | @returned rest top =>
    have gone : ¬(w.mapped = true ∨ 0 < w.copies) := by simpa only [KeepsChannel,top] using missed
    have outer := old.innermost
    rw [top] at outer
    have unowned : (w.pop rest).owned = false := by
      have parts := not_or.mp gone
      have deeper : ¬Frame.userCode ∈ rest := outer
      simp [owned,CoroConn.pop,parts.1,Nat.eq_zero_of_not_pos parts.2,deeper]
    rw [CoroConn.release,unowned]
    exact removeChannel_torn (runs top) (old.handling (runs top))
  | data _ some_data _ _ => exact absurd (keepsChannel_data some_data) missed
  | unread _ some_data _ _ => exact absurd (keepsChannel_data some_data) missed
  | error top => exact absurd (by simp only [KeepsChannel,top]) missed
  | @idle rest result top empty =>
    cases result with
    | wrote n => exact absurd trivial missed
    | error errno => exact absurd (.inr (.inl empty)) missed
  | blocked top result =>
    rcases result with rfl | rfl
    · exact absurd trivial missed
    · exact absurd (.inl rfl) missed
  | _ => exact absurd trivial missed

theorem started_sound (fd : Nat) (dataCallback : Bool) : Sound (started fd dataCallback) :=
  ⟨rfl,fun _ _ => rfl,fun runs => (by cases runs),fun some_frame => absurd rfl some_frame,List.not_mem_nil⟩

end CoroConn

namespace Awaitable
variable {a after : Awaitable} {label : Label}

structure Sound (a : Awaitable) : Prop where
  intact : a.torn = false
  handling : a.eventHandling = true → a.channel.isSome = true

-- The condition on a step of an awaitable: it is neither destroyed nor awaited
-- again before the handleEventWithGuard that resumed its coroutine returns.
def KeepsChannel (a : Awaitable) : Label → Prop
  | .await_suspend | .destroy => a.eventHandling = false
  | _ => True

theorem Sound.resetChannel (old : Sound a) (idle : a.eventHandling = false) (channel : Option Channel) :
    Sound (a.resetChannel channel) :=
  ⟨by simp [Awaitable.resetChannel,idle,old.intact],by simp [Awaitable.resetChannel,idle]⟩

theorem Sound.transferred (old : Sound a) (result : WriteResult) : Sound (a.transferred result) := by
  unfold Awaitable.transferred
  split
  · exact ⟨old.intact,old.handling⟩
  · refine ⟨old.intact,fun runs => ?_⟩
    rw [Option.isSome_map]
    exact old.handling runs

theorem Sound.pop (old : Sound a) (rest : List Frame) : Sound (a.pop rest) := ⟨old.intact,old.handling⟩

theorem Sound.runFrame (old : Sound a) (taken : a.runFrame answer = some after) : Sound after := by
  unfold Awaitable.runFrame at taken
  split at taken
  · split at taken
    · cases taken
    · cases taken
      exact old.pop _
  · split at taken
    · split at taken
      · cases taken
        exact (old.pop _).transferred _
      · cases taken
        exact (old.pop _).transferred _
    · cases taken
  · cases taken

theorem next_perform (taken : a.next label = some after) : a.perform label = some after := by
  unfold next at taken
  split at taken
  · exact taken
  · cases taken

theorem Sound.next (old : Sound a) (met : KeepsChannel a label) (taken : a.next label = some after) : Sound after := by
  have performed := next_perform taken
  cases label with
  | await_suspend =>
    cases performed
    exact old.resetChannel met _
  | destroy =>
    cases performed
    have gone := old.resetChannel met none
    exact ⟨gone.intact,gone.handling⟩
  | event revents =>
    simp only [perform] at performed
    split at performed
    · rename_i able
      cases performed
      exact ⟨old.intact,fun _ => isSome_of_any able.2⟩
    · cases performed
  | frame answer =>
    simp only [perform] at performed
    split at performed
    · exact old.runFrame performed
    · cases performed
  | handled =>
    simp only [perform] at performed
    split at performed
    · cases performed
      exact ⟨old.intact,fun runs => (by cases runs)⟩
    · cases performed

theorem Sound.broken (old : Sound a) (missed : ¬KeepsChannel a label) (taken : a.next label = some after) :
    after.torn = true := by
  have performed := next_perform taken
  have tears : a.eventHandling = true → ∀ channel, (a.resetChannel channel).torn = true := by
    intro handling channel
    simp [Awaitable.resetChannel,handling,old.handling handling]
  cases label with
  | await_suspend =>
    cases performed
    exact tears (Bool.not_eq_false _ ▸ missed) _
  | destroy =>
    cases performed
    exact tears (Bool.not_eq_false _ ▸ missed) none
  | _ => exact absurd trivial missed

theorem new_sound (op : AsyncOp) (fd count : Nat) : Sound (new op fd count) := ⟨rfl,fun runs => (by cases runs)⟩

end Awaitable

namespace CoroObject

def Sound : CoroObject → Prop
  | .conn w => w.Sound
  | .await a => a.Sound

def KeepsChannel : CoroObject → CoroLabel → Prop
  | .conn w,.conn label => w.KeepsChannel label
  | .await a,.await label => a.KeepsChannel label
  | _,_ => True

theorem Sound.intact {object : CoroObject} (old : object.Sound) : object.torn = false := by
  cases object with
  | conn w => exact CoroConn.Sound.intact old
  | await a => exact Awaitable.Sound.intact old

theorem next_sound {object after : CoroObject} {label : CoroLabel} (old : object.Sound) (met : object.KeepsChannel label)
    (taken : object.next label = some after) : after.Sound := by
  cases object with
  | conn w =>
    cases label with
    | conn label =>
      obtain ⟨moved,stepped,same⟩ := Option.map_eq_some_iff.mp taken
      obtain ⟨_,user,step⟩ := CoroConn.next_step stepped
      cases same
      exact CoroConn.Sound.step old met user step
    | await label => cases taken
  | await a =>
    cases label with
    | conn label => cases taken
    | await label =>
      obtain ⟨moved,stepped,same⟩ := Option.map_eq_some_iff.mp taken
      cases same
      exact Awaitable.Sound.next old met stepped

theorem next_broken {object after : CoroObject} {label : CoroLabel} (old : object.Sound) (missed : ¬object.KeepsChannel label)
    (taken : object.next label = some after) : after.torn = true := by
  cases object with
  | conn w =>
    cases label with
    | conn label =>
      obtain ⟨moved,stepped,same⟩ := Option.map_eq_some_iff.mp taken
      obtain ⟨alive,_,step⟩ := CoroConn.next_step stepped
      cases same
      exact CoroConn.Sound.broken old alive missed step
    | await label => cases taken
  | await a =>
    cases label with
    | conn label => cases taken
    | await label =>
      obtain ⟨moved,stepped,same⟩ := Option.map_eq_some_iff.mp taken
      cases same
      exact Awaitable.Sound.broken old missed stepped

end CoroObject

namespace CoroLoop
variable {s after : CoroLoop} {label : Nat × CoroLabel}

-- assert(!eventHandling_) has held in every ~Channel so far.
def Intact (s : CoroLoop) : Prop := ∀ key, (s.objects key).torn = false

def KeepsChannel (s : CoroLoop) (label : Nat × CoroLabel) : Prop := (s.objects label.1).KeepsChannel label.2

theorem next_sound (old : ∀ key, (s.objects key).Sound) (met : s.KeepsChannel label) (taken : s.next label = some after) :
    ∀ key, (after.objects key).Sound := by
  obtain ⟨object,moved,same⟩ := next_parts taken
  rw [same,Function.forall_update_iff s.objects fun _ object => object.Sound]
  exact ⟨CoroObject.next_sound (old label.1) met moved,fun key _ => old key⟩

theorem next_broken (old : ∀ key, (s.objects key).Sound) (missed : ¬s.KeepsChannel label) (taken : s.next label = some after) :
    ¬after.Intact := by
  obtain ⟨object,moved,same⟩ := next_parts taken
  intro intact
  have here := intact label.1
  rw [same,Function.update_self] at here
  cases here.symm.trans (CoroObject.next_broken (old label.1) missed moved)

theorem start_sound (origin : machine.start s) : ∀ key, (s.objects key).Sound := by
  intro key
  rcases origin.2 key with ⟨fd,dataCallback,same⟩ | ⟨op,fd,count,same⟩
  · rw [same]
    exact CoroConn.started_sound fd dataCallback
  · rw [same]
    exact Awaitable.new_sound op fd count

theorem channels_intact_iff {final : CoroLoop} {labels : List (Nat × CoroLabel)} (origin : machine.start s)
    (ran : machine.run s labels = some final) :
    machine.Throughout Intact s labels ↔ machine.Meets KeepsChannel s labels := by
  have sound : ∀ s : CoroLoop, (∀ key, (s.objects key).Sound) → Intact s := fun _ valid key => (valid key).intact
  have kept : ∀ (s : CoroLoop) label after, (∀ key, (s.objects key).Sound) → KeepsChannel s label →
      machine.next s label = some after → ∀ key, (after.objects key).Sound := fun _ _ _ old met taken => next_sound old met taken
  have broken : ∀ (s : CoroLoop) label after, (∀ key, (s.objects key).Sound) → ¬KeepsChannel s label →
      machine.next s label = some after → ¬Intact after := fun _ _ _ old missed taken => next_broken old missed taken
  exact Machine.throughout_iff_meets sound kept broken (start_sound origin) ran

-- One connection and any number of AsyncRead.
def oneConnection : CoroLoop :=
  ⟨fun key => if key = 0 then .conn (.started 3 true) else .await (.new .read (key + 3) 16),none⟩

theorem oneConnection_start : machine.start oneConnection := by
  refine ⟨rfl,fun key => ?_⟩
  by_cases first : key = 0
  · exact .inl ⟨3,true,if_pos first⟩
  · exact .inr ⟨.read,key + 3,16,if_neg first⟩

theorem awaitable_outlives_its_event : machine.Throughout Intact oneConnection
    [(1,.await .await_suspend),(1,.await (.event EPOLLIN)),(1,.await (.frame (some (.wrote 5)))),
      (1,.await (.frame none)),(1,.await .handled),(1,.await .destroy)] := by
  have ran : (machine.run oneConnection
      [(1,.await .await_suspend),(1,.await (.event EPOLLIN)),(1,.await (.frame (some (.wrote 5)))),
        (1,.await (.frame none)),(1,.await .handled),(1,.await .destroy)]).isSome = true := by decide +kernel
  obtain ⟨final,ran⟩ := Option.isSome_iff_exists.mp ran
  refine (channels_intact_iff oneConnection_start ran).mpr (.cons rfl rfl ?_)
  iterate 4
    refine .cons trivial rfl ?_
  exact ⟨rfl,fun _ _ => trivial⟩

-- co_await AsyncRead(..) destroys the awaitable when the coroutine goes on,
-- which is inside onReadable; and end of stream closes a connection inside its
-- own event.
theorem torn_by_resumed_coroutine_or_by_eof :
    (∃ s, machine.run oneConnection [(1,.await .await_suspend),(1,.await (.event EPOLLIN)),
        (1,.await (.frame (some (.wrote 5)))),(1,.await .destroy)] = some s ∧ (s.objects 1).torn = true ∧ ¬s.Intact) ∧
    ∃ s, machine.run oneConnection [(0,.conn (.event EPOLLIN)),(0,.conn (.frame (.read (.bytes []))))] = some s ∧
      (s.objects 0).torn = true ∧ ¬s.Intact := by
  refine ⟨⟨_,rfl,rfl,?_⟩,⟨_,rfl,rfl,?_⟩⟩
  · intro intact
    cases intact 1
  · intro intact
    cases intact 0

end CoroLoop
end NewMuduo
