import NewMuduo.UringPoller

namespace NewMuduo.UringPoller
variable {Ctx : Type u} {p after : UringPoller Ctx} {label : Label Ctx}

-- Every completion that was dealt with was dealt with once, in order, for the
-- context of its request and with its own result; the one whose user_data has
-- been read is the next; and poll returns with none it has released left.
structure DeliversOnce (p : UringPoller Ctx) : Prop where
  delivered : p.delivered = (p.cq.written.take p.delivered.length).map Cqe.delivery
  loaded : ∀ slot number ctx left, p.position = .loaded slot number ctx left →
    number = p.delivered.length ∧ ∃ res, p.cq.written[p.delivered.length]? = some ⟨number,some ctx,res⟩
  returned : p.position = .idle → p.delivered.length = p.khead

-- The condition: when handleCompletions reads a slot, the kernel has not yet
-- come round the ring to it.
def ReadBeforeReuse (p : UringPoller Ctx) : Label Ctx → Prop
  | .load | .deliver => p.cq.tail ≤ p.delivered.length + p.cq.entries
  | _ => True

instance : ∀ label : Label Ctx, Decidable (ReadBeforeReuse p label)
  | .load | .deliver => inferInstanceAs (Decidable (_ ≤ _))
  | .submit .. | .poll _ | .wait_cqe _ | .collect | .rearm .. | .suspend | .clear | .post .. => .isTrue trivial

-- The pointers left are those of the completions released and not dealt with.
def Owes (p : UringPoller Ctx) (first : Nat) (left : List Nat) : Prop :=
  first + left.length = p.khead ∧ left = (List.range' first left.length).map p.cq.slot

def Placed (p : UringPoller Ctx) : Prop :=
  match p.position with
  | .idle | .waiting => p.delivered.length = p.khead ∧ p.active_cqes = []
  | .collecting head count => p.delivered.length = p.khead ∧ head = p.khead + count ∧ head ≤ p.cq.tail ∧
      p.active_cqes = (List.range' p.khead count).map p.cq.slot
  | .handling left | .wakeup left | .resumed left => Owes p p.delivered.length left
  | .loaded slot _ _ left => slot = p.cq.slot p.delivered.length ∧ Owes p (p.delivered.length + 1) left

structure Sound (p : UringPoller Ctx) : Prop where
  good : DeliversOnce p
  numbered : ∀ n (cqe : Cqe Ctx), p.cq.written[n]? = some cqe → cqe.number = n
  released : p.khead ≤ p.cq.tail
  room : p.cq.tail ≤ p.khead + p.cq.entries
  placed : Placed p

-- What the ring and handleCompletions work on; submitting leaves it alone.
def polling (p : UringPoller Ctx) : Ring (Cqe Ctx) × Nat × List Nat × PollPosition Ctx × List (Delivery Ctx) :=
  (p.cq,p.khead,p.active_cqes,p.position,p.delivered)

theorem submitPendingSqes_polling (p : UringPoller Ctx) (ret : Option Nat) : (p.submitPendingSqes ret).polling = p.polling := by
  unfold submitPendingSqes
  split
  · split
    · rfl
    · rfl
  · rfl

theorem submitIfNeeded_polling (p : UringPoller Ctx) (ret : Option Nat) : (p.submitIfNeeded ret).polling = p.polling := by
  unfold submitIfNeeded
  split
  · exact submitPendingSqes_polling p ret
  · rfl

theorem prepare_polling (p : UringPoller Ctx) (user_data : Option Ctx) (ret : Option Nat) :
    (p.prepare user_data ret).1.polling = p.polling := by
  have room : (if p.sq.length < p.sqEntries then p else p.submitPendingSqes ret).polling = p.polling := by
    split
    · rfl
    · exact submitPendingSqes_polling p ret
  unfold prepare
  generalize (if p.sq.length < p.sqEntries then p else p.submitPendingSqes ret) = ready at room ⊢
  dsimp only
  split
  · exact room
  · exact room

theorem submit_polling (p : UringPoller Ctx) (ctx : Ctx) (full ret : Option Nat) : (p.submit ctx full ret).polling = p.polling :=
  (submitIfNeeded_polling _ ret).trans (prepare_polling p (some ctx) full)

theorem registerWakeupPoll_polling (p : UringPoller Ctx) (full ret : Option Nat) :
    (p.registerWakeupPoll full ret).polling = p.polling := by
  have prepared := prepare_polling p none full
  unfold registerWakeupPoll
  dsimp only
  split
  · exact (submitPendingSqes_polling _ ret).trans prepared
  · exact prepared

theorem Sound.frame (old : Sound p) (same : after.polling = p.polling) : Sound after := by
  obtain ⟨_,_,_,_,_,_,_,_,_,_⟩ := p
  obtain ⟨_,_,_,_,_,_,_,_,_,_⟩ := after
  simp only [polling,Prod.mk.injEq] at same
  obtain ⟨rfl,rfl,rfl,rfl,rfl⟩ := same
  exact ⟨⟨old.good.delivered,old.good.loaded,old.good.returned⟩,old.numbered,old.released,old.room,old.placed⟩

-- A move to a position in which no user_data has been read.
theorem Sound.move (old : Sound p) (position : PollPosition Ctx)
    (unread : ∀ slot number ctx left, position ≠ .loaded slot number ctx left)
    (returned : position = .idle → p.delivered.length = p.khead)
    (placed : Placed {p with position := position}) : Sound {p with position := position} :=
  ⟨⟨old.good.delivered,fun slot number ctx left here => absurd here (unread slot number ctx left),returned⟩,
    old.numbered,old.released,old.room,placed⟩

theorem Sound.handling (old : Sound p) (here : p.position = .handling left) : Owes p p.delivered.length left := by
  simpa only [Placed,here] using old.placed

theorem Sound.loaded (old : Sound p) (here : p.position = .loaded slot number ctx left) :
    slot = p.cq.slot p.delivered.length ∧ p.delivered.length < p.khead ∧ Owes p (p.delivered.length + 1) left := by
  have placed : slot = p.cq.slot p.delivered.length ∧ Owes p (p.delivered.length + 1) left := by
    simpa only [Placed,here] using old.placed
  obtain ⟨place,owed⟩ := placed
  exact ⟨place,Nat.lt_of_lt_of_le (Nat.lt_succ_self _) (Nat.le_of_add_right_le (Nat.le_of_eq owed.1)),owed⟩

theorem Sound.collecting (old : Sound p) (here : p.position = .collecting head count) :
    p.delivered.length = p.khead ∧ head = p.khead + count ∧ head ≤ p.cq.tail ∧
      p.active_cqes = (List.range' p.khead count).map p.cq.slot := by
  simpa only [Placed,here] using old.placed

-- handleCompletions is never ahead of what poll released.
theorem Sound.handled (old : Sound p) : p.delivered.length ≤ p.khead := by
  have placed := old.placed
  unfold Placed at placed
  split at placed
  · exact Nat.le_of_eq placed.1
  · exact Nat.le_of_eq placed.1
  · exact Nat.le_of_eq placed.1
  · exact Nat.le_of_add_right_le (Nat.le_of_eq placed.1)
  · exact Nat.le_of_add_right_le (Nat.le_of_eq placed.1)
  · exact Nat.le_of_add_right_le (Nat.le_of_eq placed.1)
  · have count := placed.2.1
    omega

theorem Owes.cons (owed : Owes p first (slot :: left)) : slot = p.cq.slot first ∧ first < p.khead ∧ Owes p (first + 1) left := by
  obtain ⟨count,list⟩ := owed
  rw [List.length_cons] at count list
  rw [List.range'_succ,List.map_cons,List.cons.injEq] at list
  exact ⟨list.1,by omega,by omega,list.2⟩

theorem Owes.advance (owed : Owes p (p.delivered.length + 1) left) (entry : Delivery Ctx) :
    Owes p (p.delivered ++ [entry]).length left := by
  rw [List.length_append,List.length_singleton]
  exact owed

-- The completion that the slot of the next pointer holds while it is in time.
theorem Sound.next_read (old : Sound p) (within : p.delivered.length < p.khead)
    (met : p.cq.tail ≤ p.delivered.length + p.cq.entries) :
    ∃ cqe, p.cq.written[p.delivered.length]? = some cqe ∧ p.cq.read (p.cq.slot p.delivered.length) = cqe ∧
      cqe.number = p.delivered.length := by
  have here : p.delivered.length < p.cq.tail := Nat.lt_of_lt_of_le within old.released
  have found : p.cq.written[p.delivered.length]? = some p.cq.written[p.delivered.length] := List.getElem?_eq_getElem here
  exact ⟨_,found,Ring.read_current here met,old.numbered _ _ found⟩

theorem Sound.late_read (old : Sound p) (within : p.delivered.length < p.khead)
    (missed : ¬p.cq.tail ≤ p.delivered.length + p.cq.entries) :
    (p.cq.read (p.cq.slot p.delivered.length)).number ≠ p.delivered.length := by
  have here : p.delivered.length < p.cq.tail := Nat.lt_of_lt_of_le within old.released
  obtain ⟨m,later,above,same⟩ := Ring.read_later here (Nat.lt_of_not_le missed)
  have number := old.numbered m _ (List.getElem?_eq_getElem later)
  rw [same,number]
  omega

-- One more completion dealt with, as it was posted.
theorem delivered_next (old : p.delivered = (p.cq.written.take p.delivered.length).map Cqe.delivery)
    (found : p.cq.written[p.delivered.length]? = some cqe) :
    p.delivered ++ [cqe.delivery] = (p.cq.written.take (p.delivered ++ [cqe.delivery]).length).map Cqe.delivery := by
  rw [List.length_append,List.length_singleton,List.take_add_one,found,List.map_append,← old]
  rfl

-- load by the kind of the completion that the slot holds.
theorem load_wakeup (kind : (p.cq.read slot).user_data = none) (left : List Nat) : p.load slot left =
    {p with position := .wakeup left,delivered := p.delivered ++ [.wakeup (p.cq.read slot).number]} := by
  simp only [UringPoller.load,kind]

theorem load_context (kind : (p.cq.read slot).user_data = some ctx) (left : List Nat) :
    p.load slot left = {p with position := .loaded slot (p.cq.read slot).number ctx left} := by
  simp only [UringPoller.load,kind]

theorem Sound.load (old : Sound p) (here : p.position = .handling (slot :: left)) (met : ReadBeforeReuse p .load) :
    Sound (p.load slot left) := by
  obtain ⟨place,within,rest⟩ := (old.handling here).cons
  obtain ⟨cqe,found,read,number⟩ := old.next_read within met
  rw [← place] at read
  subst read
  cases kind : (p.cq.read slot).user_data with
  | none =>
    rw [load_wakeup kind]
    have same : (p.cq.read slot).delivery = .wakeup (p.cq.read slot).number := by rw [Cqe.delivery,kind]
    have grown := delivered_next old.good.delivered found
    rw [same] at grown
    refine ⟨⟨grown,fun _ _ _ _ loaded => (by cases loaded),fun idle => (by cases idle)⟩,old.numbered,old.released,old.room,rest.advance _⟩
  | some ctx =>
    rw [load_context kind]
    have parts : p.cq.read slot = ⟨(p.cq.read slot).number,some ctx,(p.cq.read slot).res⟩ := by rw [← kind]
    refine ⟨⟨old.good.delivered,?_,fun idle => (by cases idle)⟩,old.numbered,old.released,old.room,place,rest⟩
    intro _ _ _ _ loaded
    cases loaded
    exact ⟨number,_,found.trans (congrArg some parts)⟩

theorem Sound.deliver (old : Sound p) (here : p.position = .loaded slot number ctx left) (met : ReadBeforeReuse p .deliver) :
    Sound (p.deliver slot number ctx left) := by
  obtain ⟨place,within,owed⟩ := old.loaded here
  obtain ⟨numbered,res,posted⟩ := old.good.loaded _ _ _ _ here
  obtain ⟨cqe,found,read,_⟩ := old.next_read within met
  cases Option.some.inj (found.symm.trans posted)
  have grown := delivered_next old.good.delivered found
  unfold UringPoller.deliver
  rw [place,read]
  refine ⟨⟨grown,fun _ _ _ _ loaded => (by cases loaded),fun idle => (by cases idle)⟩,old.numbered,old.released,old.room,owed.advance _⟩

theorem Sound.collect (old : Sound p) (here : p.position = .collecting head count) : Sound (p.collect head count) := by
  obtain ⟨level,place,bound,pointers⟩ := old.collecting here
  unfold UringPoller.collect
  split
  · rename_i more
    refine ⟨⟨old.good.delivered,fun _ _ _ _ loaded => (by cases loaded),fun idle => (by cases idle)⟩,
      old.numbered,old.released,old.room,level,by dsimp only; omega,more,?_⟩
    rw [pointers,List.range'_1_concat,List.map_append,place]
    rfl
  · split
    · have count_is : p.active_cqes.length = count := by rw [pointers,List.length_map,List.length_range']
      refine ⟨⟨old.good.delivered,fun _ _ _ _ loaded => (by cases loaded),fun idle => (by cases idle)⟩,
        old.numbered,by dsimp only; omega,?_,?_,?_⟩
      · have room := old.room
        dsimp only
        omega
      · rw [count_is,level]
      · rw [count_is,level]
        exact pointers
    · have none : count = 0 := by omega
      have empty : p.active_cqes = [] := by
        rw [pointers,none]
        rfl
      exact old.move .idle (fun _ _ _ _ loaded => (by cases loaded)) (fun _ => level) ⟨level,empty⟩

theorem Sound.post (old : Sound p) (room : p.cq.tail < p.khead + p.cq.entries) (index : Nat) (user_data : Option Ctx) (res : Int) :
    Sound (p.post index user_data res) := by
  have handled := Nat.le_trans old.handled old.released
  refine ⟨⟨?_,?_,old.good.returned⟩,?_,?_,?_,?_⟩
  · change p.delivered = ((p.cq.written ++ [_]).take p.delivered.length).map Cqe.delivery
    rw [List.take_append_of_le_length handled]
    exact old.good.delivered
  · intro slot number ctx left loaded
    obtain ⟨numbered,res,found⟩ := old.good.loaded slot number ctx left loaded
    refine ⟨numbered,res,?_⟩
    have within : p.delivered.length < p.cq.written.length := (List.getElem?_eq_some_iff.mp found).1
    exact (List.getElem?_append_left within).trans found
  · intro n cqe found
    change (p.cq.written ++ [_])[n]? = some cqe at found
    rcases Nat.lt_trichotomy n p.cq.written.length with earlier | last | beyond
    · rw [List.getElem?_append_left earlier] at found
      exact old.numbered n cqe found
    · subst last
      rw [List.getElem?_concat_length] at found
      cases found
      rfl
    · rw [List.getElem?_eq_none (by rw [List.length_append]; exact beyond)] at found
      cases found
  · exact Nat.le_trans old.released (Nat.le_of_lt (by simp [UringPoller.post]))
  · change Ring.tail (p.cq.put _) ≤ p.khead + p.cq.entries
    rw [Ring.put_tail]
    exact room
  · have placed := old.placed
    unfold Placed at placed ⊢
    cases here : p.position with
    | collecting head count =>
      simp only [UringPoller.post,here,Ring.put_tail] at placed ⊢
      exact ⟨placed.1,placed.2.1,by omega,placed.2.2.2⟩
    | _ =>
      simp only [UringPoller.post,here] at placed ⊢
      exact placed

theorem Sound.step (old : Sound p) (met : ReadBeforeReuse p label) (taken : p.next label = some after) : Sound after := by
  cases label with
  | submit ctx full ret =>
    simp only [next] at taken
    split at taken
    · cases taken
      exact old.frame (submit_polling p ctx full ret)
    · cases taken
      exact old.frame (submit_polling p ctx full ret)
    · cases taken
  | poll ret =>
    simp only [next] at taken
    split at taken
    · rename_i here
      cases taken
      have place : p.position = .idle := by simpa using here
      have placed : p.delivered.length = p.khead ∧ p.active_cqes = [] := by simpa only [Placed,place] using old.placed
      have waits : Sound {p with position := .waiting} :=
        old.move .waiting (fun _ _ _ _ loaded => (by cases loaded)) (fun idle => (by cases idle)) placed
      exact waits.frame (by
        have same := submitPendingSqes_polling p ret
        simp only [polling,Prod.mk.injEq] at same
        simp only [UringPoller.poll,polling,same])
    · cases taken
  | wait_cqe ok =>
    simp only [next] at taken
    split at taken
    · rename_i here
      cases taken
      have place : p.position = .waiting := by simpa using here
      have placed : p.delivered.length = p.khead ∧ p.active_cqes = [] := by simpa only [Placed,place] using old.placed
      cases ok with
      | true =>
        exact old.move (.collecting p.khead 0) (fun _ _ _ _ loaded => (by cases loaded)) (fun idle => (by cases idle))
          ⟨placed.1,rfl,old.released,placed.2⟩
      | false => exact old.move .idle (fun _ _ _ _ loaded => (by cases loaded)) (fun _ => placed.1) placed
    · cases taken
  | collect =>
    simp only [next] at taken
    split at taken
    · rename_i here
      cases taken
      exact old.collect here
    · cases taken
  | load =>
    simp only [next] at taken
    split at taken
    · rename_i here
      cases taken
      exact old.load here met
    · cases taken
  | deliver =>
    simp only [next] at taken
    split at taken
    · rename_i here
      cases taken
      exact old.deliver here met
    · cases taken
  | rearm full ret =>
    simp only [next] at taken
    split at taken
    · rename_i left here
      cases taken
      have owed : Owes p p.delivered.length left := by simpa only [Placed,here] using old.placed
      have handles : Sound {p with position := .handling left} :=
        old.move (.handling left) (fun _ _ _ _ loaded => (by cases loaded)) (fun idle => (by cases idle)) owed
      exact handles.frame (by
        have same := registerWakeupPoll_polling {p with wakeupPollArmed := false} full ret
        simp only [polling,Prod.mk.injEq] at same
        simp only [UringPoller.rearm,polling,same])
    · cases taken
  | suspend =>
    simp only [next] at taken
    split at taken
    · rename_i left here
      cases taken
      have owed : Owes p p.delivered.length left := by simpa only [Placed,here] using old.placed
      exact old.move (.handling left) (fun _ _ _ _ loaded => (by cases loaded)) (fun idle => (by cases idle)) owed
    · cases taken
  | clear =>
    simp only [next] at taken
    split at taken
    · rename_i here
      cases taken
      have place : p.position = .handling [] := by simpa using here
      have level : p.delivered.length = p.khead := (old.handling place).1
      exact ⟨⟨old.good.delivered,fun _ _ _ _ loaded => (by cases loaded),fun _ => level⟩,
        old.numbered,old.released,old.room,level,rfl⟩
    · cases taken
  | post index res =>
    simp only [next] at taken
    split at taken
    · split at taken
      · rename_i room
        cases taken
        exact old.post room index _ res
      · cases taken
    · cases taken

-- The newest delivery is that of the completion it was the turn of.
theorem Sound.newest (old : Sound p) (same : p.delivered ++ [entry] =
    (p.cq.written.take (p.delivered ++ [entry]).length).map Cqe.delivery) :
    ∃ cqe : Cqe Ctx, cqe.delivery = entry ∧ cqe.number = p.delivered.length := by
  have here : ((p.cq.written.take (p.delivered ++ [entry]).length).map Cqe.delivery)[p.delivered.length]? = some entry := by
    rw [← same]
    exact List.getElem?_concat_length
  rw [List.length_append,List.length_singleton,List.getElem?_map,List.getElem?_take_of_succ] at here
  obtain ⟨cqe,found,shown⟩ := Option.map_eq_some_iff.mp here
  exact ⟨cqe,shown,old.numbered _ _ found⟩

theorem wakeup_number {cqe : Cqe Ctx} (shown : cqe.delivery = .wakeup number) : number = cqe.number := by
  unfold Cqe.delivery at shown
  split at shown <;> cases shown
  rfl

theorem resumed_number {cqe : Cqe Ctx} (shown : cqe.delivery = .resumed number ctx resNumber res) : resNumber = cqe.number := by
  unfold Cqe.delivery at shown
  split at shown <;> cases shown
  rfl

-- A slot read too late gives a later completion, so one is lost and one dealt
-- with twice.
theorem Sound.broken (old : Sound p) (missed : ¬ReadBeforeReuse p label) (taken : p.next label = some after) :
    ¬DeliversOnce after := by
  intro good
  cases label with
  | load =>
    simp only [next] at taken
    split at taken
    · rename_i slot left here
      cases taken
      obtain ⟨place,within,_⟩ := (old.handling here).cons
      have late := old.late_read within missed
      rw [← place] at late
      cases kind : (p.cq.read slot).user_data with
      | none =>
        rw [load_wakeup kind] at good
        obtain ⟨cqe,entry,number⟩ := old.newest good.delivered
        exact late ((wakeup_number entry).trans number)
      | some ctx =>
        rw [load_context kind] at good
        exact late (good.loaded slot _ ctx left rfl).1
    · cases taken
  | deliver =>
    simp only [next] at taken
    split at taken
    · rename_i slot number ctx left here
      cases taken
      obtain ⟨place,within,_⟩ := old.loaded here
      have late := old.late_read within missed
      rw [← place] at late
      obtain ⟨cqe,entry,numbered⟩ := old.newest good.delivered
      exact late ((resumed_number entry).trans numbered)
    · cases taken
  | _ => exact absurd trivial missed

theorem start_sound (origin : machine.start p) : Sound p := by
  obtain ⟨sqEntries,entries,cqes,nonempty,full,ret,rfl⟩ := origin
  have fresh : Sound (⟨sqEntries,[],[],.new entries cqes nonempty,0,false,0,[],.idle,[]⟩ : UringPoller Ctx) := by
    refine ⟨⟨rfl,fun _ _ _ _ loaded => (by cases loaded),fun _ => rfl⟩,fun _ _ found => (by cases found),Nat.zero_le _,
      Nat.zero_le _,rfl,rfl⟩
  exact fresh.frame (registerWakeupPoll_polling _ full ret)

def Label.byKernel : Label Ctx → Bool
  | .post _ _ => true
  | _ => false

-- A stretch of poll in which the kernel posts nothing.
def Polls (p : UringPoller Ctx) (labels : List (Label Ctx)) (final : UringPoller Ctx) : Prop :=
  (∀ label ∈ labels, label.byKernel = false) ∧ machine.run p labels = some final ∧ Sound final ∧ final.cq = p.cq

theorem Polls.cons {middle final : UringPoller Ctx} {labels : List (Label Ctx)} (own : label.byKernel = false)
    (taken : p.next label = some middle) (same : middle.cq = p.cq) (rest : Polls middle labels final) :
    Polls p (label :: labels) final := by
  obtain ⟨owns,ran,valid,kept⟩ := rest
  refine ⟨?_,(Machine.run_cons taken).trans ran,valid,kept.trans same⟩
  intro other member
  rcases List.mem_cons.mp member with rfl | later
  · exact own
  · exact owns other later

theorem Polls.append {middle final : UringPoller Ctx} {first second : List (Label Ctx)} (one : Polls p first middle)
    (two : Polls middle second final) : Polls p (first ++ second) final := by
  refine ⟨?_,(Machine.run_append one.2.1).trans two.2.1,two.2.2.1,two.2.2.2.trans one.2.2.2⟩
  intro label member
  rcases List.mem_append.mp member with earlier | later
  · exact one.1 label earlier
  · exact two.1 label later

-- The loop over the ring ends with everything posted released.
theorem collect_all (old : Sound p) (here : p.position = .collecting head count) : ∃ labels middle,
    Polls p labels middle ∧ middle.khead = p.cq.tail ∧ middle.delivered = p.delivered ∧
    (middle.position = .idle ∨ ∃ left, middle.position = .handling left) := by
  induction distance : p.cq.tail - head generalizing p head count with
  | zero =>
    have placed := old.collecting here
    have taken : p.next .collect = some (p.collect head count) := by simp only [next,here]
    have valid := old.collect here
    have ended : ¬head < p.cq.tail := by omega
    refine ⟨[.collect],p.collect head count,⟨by simp [Label.byKernel],(Machine.run_cons taken).trans rfl,valid,?_⟩,?_⟩
    all_goals
      unfold UringPoller.collect
      rw [if_neg ended]
      split
    · rfl
    · rfl
    · exact ⟨by dsimp only; omega,rfl,.inr ⟨_,rfl⟩⟩
    · exact ⟨by dsimp only; omega,rfl,.inl rfl⟩
  | succ distance_left ih =>
    have taken : p.next .collect = some (p.collect head count) := by simp only [next,here]
    have more : head < p.cq.tail := by omega
    have shown : p.collect head count =
        {p with active_cqes := p.active_cqes ++ [p.cq.slot head],position := .collecting (head + 1) (count + 1)} := if_pos more
    rw [shown] at taken
    obtain ⟨labels,middle,rest,released,kept,position⟩ := ih (shown ▸ old.collect here) rfl (by dsimp only; omega)
    exact ⟨.collect :: labels,middle,rest.cons rfl taken rfl,released,kept,position⟩

theorem Polls.one (label : Label Ctx) (old : Sound p) (met : ReadBeforeReuse p label) (own : label.byKernel = false)
    (taken : p.next label = some after) (same : after.cq = p.cq) : Polls p [label] after :=
  ⟨fun _ member => List.mem_singleton.mp member ▸ own,(Machine.run_cons taken).trans rfl,old.step met taken,same⟩

-- One turn of the loop in handleCompletions.
theorem handle_one (old : Sound p) (here : p.position = .handling (slot :: left))
    (near : p.cq.tail ≤ p.delivered.length + p.cq.entries) : ∃ labels middle, Polls p labels middle ∧
    middle.khead = p.khead ∧ middle.position = .handling left ∧ p.delivered.length ≤ middle.delivered.length := by
  have taken : p.next .load = some (p.load slot left) := by simp only [next,here]
  have valid := old.load here near
  cases kind : (p.cq.read slot).user_data with
  | none =>
    rw [load_wakeup kind] at taken valid
    have first := Polls.one .load old near rfl taken rfl
    have same := registerWakeupPoll_polling {p with
      wakeupPollArmed := false
      position := .wakeup left
      delivered := p.delivered ++ [.wakeup (p.cq.read slot).number]} none none
    simp only [polling,Prod.mk.injEq] at same
    obtain ⟨ring,head,_,_,record⟩ := same
    refine ⟨_,_,first.append (Polls.one (.rearm none none) valid trivial rfl rfl ring),head,rfl,?_⟩
    simp only [UringPoller.rearm,record,List.length_append]
    exact Nat.le_add_right _ _
  | some ctx =>
    rw [load_context kind] at taken valid
    have first := Polls.one .load old near rfl taken rfl
    have second := Polls.one .deliver valid near rfl rfl rfl
    have third := Polls.one .suspend second.2.2.1 trivial rfl rfl rfl
    refine ⟨_,_,(first.append second).append third,rfl,rfl,?_⟩
    simp only [UringPoller.deliver,List.length_append]
    exact Nat.le_add_right _ _

theorem handle_all (old : Sound p) (here : p.position = .handling left)
    (near : p.cq.tail ≤ p.delivered.length + p.cq.entries) : ∃ labels final,
    Polls p labels final ∧ final.khead = p.khead ∧ final.position = .idle := by
  induction left generalizing p with
  | nil =>
    have taken : p.next .clear = some {p with position := .idle,active_cqes := []} := by simp [next,here]
    exact ⟨_,_,Polls.one .clear old trivial rfl taken rfl,rfl,rfl⟩
  | cons slot left ih =>
    obtain ⟨labels,middle,one,head,position,grown⟩ := handle_one old here near
    have ring := one.2.2.2
    obtain ⟨more,final,rest,released,returned⟩ := ih one.2.2.1 position (by rw [ring]; omega)
    exact ⟨labels ++ more,final,one.append rest,released.trans head,returned⟩

-- Whatever has been posted when poll looks at the ring, it deals with all of it.
theorem poll_delivers_posted (old : Sound p) (here : p.position = .idle) : ∃ labels final, Polls p labels final ∧
    final.position = .idle ∧ final.delivered = p.cq.written.map Cqe.delivery := by
  have same := submitPendingSqes_polling p none
  simp only [polling,Prod.mk.injEq] at same
  obtain ⟨ring,head,_,_,record⟩ := same
  have level := old.good.returned here
  have polls : p.next (.poll none) = some (p.poll none) := by simp [next,here]
  have first := Polls.one (.poll none) old trivial rfl polls ring
  have second := Polls.one (.wait_cqe true) first.2.2.1 trivial rfl rfl rfl
  obtain ⟨labels,middle,third,released,kept,position⟩ := collect_all second.2.2.1 rfl
  have stretch := (first.append second).append third
  have near : middle.cq.tail ≤ middle.delivered.length + middle.cq.entries := by
    have room := old.room
    rw [stretch.2.2.2,kept]
    change p.cq.tail ≤ (p.poll none).delivered.length + p.cq.entries
    have count : (p.poll none).delivered.length = p.delivered.length := congrArg List.length record
    omega
  have finish : ∃ more final, Polls middle more final ∧ final.khead = middle.khead ∧ final.position = .idle := by
    rcases position with returned | ⟨left,handles⟩
    · exact ⟨[],middle,⟨fun _ none => (by cases none),rfl,third.2.2.1,rfl⟩,rfl,returned⟩
    · exact handle_all third.2.2.1 handles near
  obtain ⟨more,final,rest,head_kept,returned⟩ := finish
  have whole := stretch.append rest
  refine ⟨_,final,whole,returned,?_⟩
  have count : final.delivered.length = p.cq.written.length := by
    have last := whole.2.2.1.good.returned returned
    have tail : (p.poll none).cq.tail = p.cq.tail := congrArg Ring.tail ring
    change final.delivered.length = p.cq.tail
    rw [last,head_kept,released]
    exact tail
  rw [whole.2.2.1.good.delivered,whole.2.2.2,count,List.take_length]

-- As long as the condition is met every completion is dealt with exactly once:
-- no delivery is wrong, and a poll at the end deals with all that is posted.
theorem deliveries_iff {final : UringPoller Ctx} {labels : List (Label Ctx)} (origin : machine.start p)
    (ran : machine.run p labels = some final) :
    (machine.Throughout DeliversOnce p labels ↔ machine.Meets ReadBeforeReuse p labels) ∧
    (machine.Meets ReadBeforeReuse p labels → final.position = .idle →
      ∃ more last, Polls final more last ∧ last.position = .idle ∧ last.delivered = final.cq.written.map Cqe.delivery) := by
  have sound : ∀ s : UringPoller Ctx, Sound s → DeliversOnce s := fun _ valid => valid.good
  have kept : ∀ (s : UringPoller Ctx) label after, Sound s → ReadBeforeReuse s label → machine.next s label = some after →
      Sound after := fun _ _ _ old met taken => old.step met taken
  have broken : ∀ (s : UringPoller Ctx) label after, Sound s → ¬ReadBeforeReuse s label → machine.next s label = some after →
      ¬DeliversOnce after := fun _ _ _ old missed taken => old.broken missed taken
  refine ⟨Machine.throughout_iff_meets sound kept broken (start_sound origin) ran,fun met idle => ?_⟩
  exact poll_delivers_posted (Machine.run_meets kept (start_sound origin) met ran) idle

-- A small ring: its two slots, and the wakeup poll already with the kernel.
def smallRing : UringPoller Nat := initUring 8 2 (fun _ => ⟨0,none,0⟩) (by decide) none (some 1)

theorem smallRing_start : machine.start smallRing := ⟨8,2,_,_,_,_,rfl⟩

-- Two reads and the two slots: the second completion is posted after the first
-- has been collected and before it is read.
def twoReads : List (Label Nat) :=
  [.submit 7 none none,.submit 8 none none,.poll (some 2),.post 1 5,.wait_cqe true,.collect,.collect,.post 1 6,
    .load,.deliver,.suspend,.clear,.poll none,.wait_cqe true,.collect,.collect,.load,.deliver,.suspend,.clear]

theorem two_reads_delivered : machine.Throughout DeliversOnce smallRing twoReads ∧
    ∃ final, machine.run smallRing twoReads = some final ∧ final.delivered = [.resumed 0 7 0 5,.resumed 1 8 1 6] := by
  have found : (machine.run smallRing twoReads).map UringPoller.delivered = some [.resumed 0 7 0 5,.resumed 1 8 1 6] := by
    decide +kernel
  obtain ⟨final,ran,delivered⟩ := Option.map_eq_some_iff.mp found
  exact ⟨(deliveries_iff smallRing_start ran).1.mpr (by decide +kernel),final,ran,delivered⟩

-- Both slots are released before either is read. While the coroutine of the
-- first completion runs, the kernel fills them again: the second completion is
-- never seen and the fourth takes its turn.
theorem second_completion_lost : ∃ s, machine.run smallRing
      [.submit 7 none none,.submit 8 none none,.submit 9 none none,.submit 10 none (some 4),
        .poll none,.post 1 70,.post 1 80,.wait_cqe true,.collect,.collect,.collect,.load,.deliver,
        .post 1 90,.post 1 100,.suspend,.load,.deliver,.suspend,.clear] = some s ∧
    s.cq.written = [⟨0,some 7,70⟩,⟨1,some 8,80⟩,⟨2,some 9,90⟩,⟨3,some 10,100⟩] ∧
    s.delivered = [.resumed 0 7 0 70,.resumed 3 10 3 100] ∧ s.position = .idle ∧ ¬DeliversOnce s := by
  have found : (machine.run smallRing
      [.submit 7 none none,.submit 8 none none,.submit 9 none none,.submit 10 none (some 4),
        .poll none,.post 1 70,.post 1 80,.wait_cqe true,.collect,.collect,.collect,.load,.deliver,
        .post 1 90,.post 1 100,.suspend,.load,.deliver,.suspend,.clear]).map
        (fun s => (s.cq.written,s.delivered,s.position)) =
      some ([⟨0,some 7,70⟩,⟨1,some 8,80⟩,⟨2,some 9,90⟩,⟨3,some 10,100⟩],
        [.resumed 0 7 0 70,.resumed 3 10 3 100],.idle) := by decide +kernel
  obtain ⟨s,ran,parts⟩ := Option.map_eq_some_iff.mp found
  simp only [Prod.mk.injEq] at parts
  obtain ⟨written,delivered,position⟩ := parts
  refine ⟨s,ran,written,delivered,position,?_⟩
  intro good
  have turns := good.delivered
  rw [delivered,written] at turns
  cases turns

end NewMuduo.UringPoller
