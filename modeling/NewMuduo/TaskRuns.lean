import NewMuduo.Task
import Mathlib.Data.List.Forall2

namespace NewMuduo.Coroutines
variable {Body Value Error : Type} {code : Routines Body Value Error} {w after : Coroutines Body Value Error}
  {a : CallStacks Handle Body Value Error} {frames others : Handle → Option (CoroFrame Body Value Error)}
  {s : CallStack Handle Body Value Error} {root h : Handle} {callers : List (Handle × Body)} {body : Body}
  {answers : List Value} {outcome : Except Error Value}

def pointOf : Doing Value Error → Point
  | .begins => .initial_suspend
  | .runs => .running
  | .waits => .suspended
  | .ended _ => .final_suspend

theorem pointOf_begins {doing : Doing Value Error} (here : pointOf doing = .initial_suspend) : doing = .begins := by
  cases doing <;> simp_all [pointOf]

theorem pointOf_runs {doing : Doing Value Error} (here : pointOf doing = .running) : doing = .runs := by
  cases doing <;> simp_all [pointOf]

theorem pointOf_waits {doing : Doing Value Error} (here : pointOf doing = .suspended) : doing = .waits := by
  cases doing <;> simp_all [pointOf]

theorem pointOf_ended {doing : Doing Value Error} (here : pointOf doing = .final_suspend) :
    ∃ outcome, doing = .ended outcome := by
  cases doing <;> simp_all [pointOf]

def promiseOf (continuation : Option Handle) : Doing Value Error → TaskPromise Value Error
  | .ended (.ok val) => ⟨continuation,none,some val⟩
  | .ended (.error eptr) => ⟨continuation,some eptr,none⟩
  | _ => ⟨continuation,none,none⟩

theorem promiseOf_result (continuation : Option Handle) :
    (promiseOf continuation (.ended outcome)).get_result = some outcome := by
  cases outcome <;> rfl

theorem promiseOf_continuation (continuation : Option Handle) (doing : Doing Value Error) :
    (promiseOf continuation doing).continuation = continuation := by
  unfold promiseOf
  split <;> rfl

-- The caller a finished coroutine returns to.
def nearest (callers : List (Handle × Body)) : Option Handle := callers.head?.map Prod.fst

-- The callers of a frame lie below it, each at its co_await of the one above.
def CallersLaid (frames : Handle → Option (CoroFrame Body Value Error)) (root : Handle) :
    Handle → List (Handle × Body) → Prop
  | h,[] => h = root
  | h,(caller,body) :: callers => caller < h ∧
      frames caller = some ⟨body,.co_await h,⟨nearest callers,none,none⟩,root⟩ ∧ CallersLaid frames root caller callers

structure Laid (frames : Handle → Option (CoroFrame Body Value Error)) (root : Handle)
    (s : CallStack Handle Body Value Error) : Prop where
  leaf : frames s.leaf = some ⟨s.body,pointOf s.doing,promiseOf (nearest s.callers) s.doing,root⟩
  callers : CallersLaid frames root s.leaf s.callers

def names (s : CallStack Handle Body Value Error) : List Handle := s.leaf :: s.callers.map Prod.fst

-- The frame that has control when the chain has it.
def control (s : CallStack Handle Body Value Error) : Handle :=
  match s.doing with
  | .ended _ => (nearest s.callers).getD s.leaf
  | _ => s.leaf

theorem CallersLaid.below (laid : CallersLaid frames root h callers) : ∀ k ∈ callers.map Prod.fst, k < h := by
  induction callers generalizing h with
  | nil => exact fun _ absent => (by cases absent)
  | cons caller callers ih =>
    obtain ⟨less,_,rest⟩ := laid
    intro k member
    rcases List.mem_cons.mp member with rfl | later
    · exact less
    · exact Nat.lt_trans (ih rest k later) less

theorem CallersLaid.length (laid : CallersLaid frames root h callers) : callers.length ≤ h := by
  induction callers generalizing h with
  | nil => exact Nat.zero_le _
  | cons caller callers ih =>
    obtain ⟨less,_,rest⟩ := laid
    exact Nat.succ_le_of_lt (Nat.lt_of_le_of_lt (ih rest) less)

-- A caller is at a co_await, and it belongs to the root.
theorem CallersLaid.waiting (laid : CallersLaid frames root h callers) : ∀ k ∈ callers.map Prod.fst,
    ∃ f task, frames k = some f ∧ f.point = .co_await task ∧ f.root = root := by
  induction callers generalizing h with
  | nil => exact fun _ absent => (by cases absent)
  | cons caller callers ih =>
    obtain ⟨_,found,rest⟩ := laid
    intro k member
    rcases List.mem_cons.mp member with rfl | later
    · exact ⟨_,h,found,rfl,rfl⟩
    · exact ih rest k later

theorem CallersLaid.outermost (laid : CallersLaid frames root h callers) : root = h ∨ root ∈ callers.map Prod.fst := by
  induction callers generalizing h with
  | nil => exact .inl laid.symm
  | cons caller callers ih =>
    obtain ⟨_,_,rest⟩ := laid
    rcases ih rest with here | there
    · exact .inr (List.mem_cons.mpr (.inl here))
    · exact .inr (List.mem_cons_of_mem _ there)

theorem CallersLaid.move (laid : CallersLaid frames root h callers) (same : ∀ k < h, others k = frames k) :
    CallersLaid others root h callers := by
  induction callers generalizing h with
  | nil => exact laid
  | cons caller callers ih =>
    obtain ⟨less,found,rest⟩ := laid
    exact ⟨less,(same _ less).trans found,ih rest fun k lower => same k (Nat.lt_trans lower less)⟩

theorem CallersLaid.frame (laid : CallersLaid frames root h callers)
    (kept : ∀ k f, frames k = some f → f.root = root → others k = some f) : CallersLaid others root h callers := by
  induction callers generalizing h with
  | nil => exact laid
  | cons caller callers ih =>
    obtain ⟨less,found,rest⟩ := laid
    exact ⟨less,kept _ _ found rfl,ih rest⟩

-- A continuation is the caller at its co_await of the frame; only the root has none.
theorem CallersLaid.continuation (laid : CallersLaid frames root h callers) :
    (nearest callers = none ↔ h = root) ∧
      ∀ k, nearest callers = some k → ∃ g, frames k = some g ∧ g.point = .co_await h ∧ g.root = root := by
  cases callers with
  | nil => exact ⟨iff_of_true rfl laid,fun _ absent => (by cases absent)⟩
  | cons caller callers =>
    obtain ⟨less,found,rest⟩ := laid
    refine ⟨iff_of_false (fun absent => (by cases absent)) ?_,fun k same => ?_⟩
    · rintro rfl
      rcases rest.outermost with here | there
      · exact absurd less (by rw [← here]; exact Nat.lt_irrefl _)
      · exact Nat.lt_irrefl _ (Nat.lt_trans (rest.below _ there) less)
    · cases same
      exact ⟨_,found,rfl,rfl⟩

-- A caller has callers of its own, and is the continuation of what it awaits.
theorem CallersLaid.suffix (laid : CallersLaid frames root h callers)
    (linked : ∃ f, frames h = some f ∧ f.promise.continuation = nearest callers) : ∀ k ∈ callers.map Prod.fst,
    ∃ body task rest g, frames k = some ⟨body,.co_await task,⟨nearest rest,none,none⟩,root⟩ ∧
      CallersLaid frames root k rest ∧ frames task = some g ∧ g.promise.continuation = some k := by
  induction callers generalizing h with
  | nil => exact fun _ absent => (by cases absent)
  | cons caller callers ih =>
    obtain ⟨_,found,rest⟩ := laid
    obtain ⟨f,awaited,continuation⟩ := linked
    intro k member
    rcases List.mem_cons.mp member with rfl | later
    · exact ⟨caller.2,h,callers,f,found,rest,awaited,continuation⟩
    · exact ih rest ⟨_,found,rfl⟩ k later

theorem Laid.frame (laid : Laid frames root s) (kept : ∀ k f, frames k = some f → f.root = root → others k = some f) :
    Laid others root s :=
  ⟨kept _ _ laid.leaf rfl,laid.callers.frame kept⟩

theorem Laid.found (laid : Laid frames root s) (member : h ∈ names s) : ∃ f, frames h = some f ∧ f.root = root := by
  rcases List.mem_cons.mp member with rfl | later
  · exact ⟨_,laid.leaf,rfl⟩
  · obtain ⟨f,_,found,_,same⟩ := laid.callers.waiting h later
    exact ⟨f,found,same⟩

theorem Laid.root_named (laid : Laid frames root s) : root ∈ names s := List.mem_cons.mpr laid.callers.outermost

-- A frame of the chain that is not at a co_await is its innermost one.
theorem Laid.is_leaf {f : CoroFrame Body Value Error} (laid : Laid frames root s) (member : h ∈ names s)
    (found : frames h = some f) (apart : ∀ task, f.point ≠ .co_await task) :
    h = s.leaf ∧ f = ⟨s.body,pointOf s.doing,promiseOf (nearest s.callers) s.doing,root⟩ := by
  rcases List.mem_cons.mp member with rfl | later
  · exact ⟨rfl,Option.some.inj (found.symm.trans laid.leaf)⟩
  · obtain ⟨_,task,same,waits,_⟩ := laid.callers.waiting h later
    cases found.symm.trans same
    exact absurd waits (apart task)

-- What the frames on a thread stand for: the frames of each root are those of
-- one chain of calls.
structure Represents (w : Coroutines Body Value Error) (a : CallStacks Handle Body Value Error) : Prop where
  laid : ∀ root s, a.chains root = some s → Laid w.frames root s
  known : ∀ h f, w.frames h = some f → ∃ s, a.chains f.root = some s ∧ h ∈ names s
  below : ∀ h f, w.frames h = some f → h < w.created
  running : List.Forall₂ (fun h root => ∃ s, a.chains root = some s ∧ control s = h) w.running a.active
  tasks : ∀ root, w.tasks root = (a.chains root).map fun s => (s.origin,s.given)

theorem control_named (s : CallStack Handle Body Value Error) : control s ∈ names s := by
  unfold control nearest names
  split
  · cases s.callers with
    | nil => exact List.mem_cons_self
    | cons caller callers => exact List.mem_cons_of_mem _ List.mem_cons_self
  · exact List.mem_cons_self

theorem Represents.fresh (old : Represents w a) : a.chains w.created = none := by
  cases there : a.chains w.created with
  | none => rfl
  | some s =>
    obtain ⟨f,found,_⟩ := (old.laid _ _ there).found (old.laid _ _ there).root_named
    exact absurd (old.below _ _ found) (Nat.lt_irrefl _)

-- The frames of one root change; a step is represented again when they make a
-- chain that is like the abstract one.
theorem Represents.place {active : List Handle} (old : Represents w a) (mine : Laid after.frames root s)
    (kept : ∀ k f, w.frames k = some f → f.root ≠ root → after.frames k = some f)
    (back : ∀ k f, after.frames k = some f → f.root ≠ root → w.frames k = some f)
    (all : ∀ k f, after.frames k = some f → f.root = root → k ∈ names s ∧ k < after.created)
    (more : w.created ≤ after.created) (apart : root ∉ active)
    (running : ∃ resumers, after.running = (if s.live then control s :: resumers else resumers) ∧
      List.Forall₂ (fun h root => ∃ s, a.chains root = some s ∧ control s = h) resumers active)
    (tasks : after.tasks = Function.update w.tasks root (some (s.origin,s.given))) :
    Represents after (a.place root s active) := by
  refine ⟨?_,?_,?_,?_,?_⟩
  · intro other t there
    by_cases same : other = root
    · subst same
      rw [CallStacks.place_self] at there
      cases there
      exact mine
    · rw [CallStacks.place_other same] at there
      exact (old.laid other t there).frame fun k f found equal => kept k f found (equal ▸ same)
  · intro k f found
    by_cases same : f.root = root
    · exact ⟨s,by rw [same]; exact CallStacks.place_self,(all k f found same).1⟩
    · rw [CallStacks.place_other same]
      exact old.known k f (back k f found same)
  · intro k f found
    by_cases same : f.root = root
    · exact (all k f found same).2
    · exact Nat.lt_of_lt_of_le (old.below k f (back k f found same)) more
  · obtain ⟨resumers,order,others⟩ := running
    have rest : List.Forall₂ (fun h name => ∃ t, (a.place root s active).chains name = some t ∧ control t = h) resumers active := by
      refine List.forall₂_iff_zip.mpr ⟨others.length_eq,fun {k name} member => ?_⟩
      have differ : name ≠ root := by
        rintro rfl
        exact apart (List.of_mem_zip member).2
      rw [CallStacks.place_other differ]
      exact (List.forall₂_iff_zip.mp others).2 member
    rw [order]
    simp only [CallStacks.place]
    split
    · have mine : (a.place root s active).chains root = some s := CallStacks.place_self
      exact .cons ⟨s,mine,rfl⟩ rest
    · exact rest
  · intro other
    rw [tasks]
    by_cases same : other = root
    · subst same
      rw [CallStacks.place_self,Function.update_self]
      rfl
    · rw [CallStacks.place_other same,Function.update_of_ne same]
      exact old.tasks other

-- Only the innermost frame changes.
theorem Represents.change {active : List Handle} {t : CallStack Handle Body Value Error} (old : Represents w a)
    (there : a.chains root = some s) (leaf : t.leaf = s.leaf) (callers : t.callers = s.callers)
    (frames : after.frames = Function.update w.frames s.leaf
      (some ⟨t.body,pointOf t.doing,promiseOf (nearest s.callers) t.doing,root⟩))
    (created : after.created = w.created) (apart : root ∉ active)
    (running : ∃ resumers, after.running = (if t.live then control t :: resumers else resumers) ∧
      List.Forall₂ (fun h root => ∃ s, a.chains root = some s ∧ control s = h) resumers active)
    (tasks : after.tasks = Function.update w.tasks root (some (t.origin,t.given))) :
    Represents after (a.place root t active) := by
  have laid := old.laid root s there
  have same_names : names t = names s := by rw [names,names,leaf,callers]
  have elsewhere : ∀ {k}, k ≠ s.leaf → after.frames k = w.frames k := by
    intro k differ
    rw [frames,Function.update_of_ne differ]
  have distinct : ∀ {k f}, w.frames k = some f → f.root ≠ root → k ≠ s.leaf := by
    rintro k f found other rfl
    cases laid.leaf.symm.trans found
    exact other rfl
  refine old.place ⟨?_,?_⟩ ?_ ?_ ?_ (Nat.le_of_eq created.symm) apart running tasks
  · rw [leaf,callers,frames,Function.update_self]
  · rw [leaf,callers]
    exact laid.callers.move fun k lower => elsewhere (Nat.ne_of_lt lower)
  · intro k f found other
    rw [elsewhere (distinct found other)]
    exact found
  · intro k f found other
    by_cases same : k = s.leaf
    · rw [same,frames,Function.update_self] at found
      cases found
      exact absurd rfl other
    · exact (elsewhere same).symm.trans found
  · intro k f found mine
    rw [same_names,created]
    by_cases same : k = s.leaf
    · rw [same]
      exact ⟨List.mem_cons_self,old.below _ _ laid.leaf⟩
    · rw [elsewhere same] at found
      obtain ⟨u,known,member⟩ := old.known k f found
      rw [mine,there] at known
      cases known
      exact ⟨member,old.below k f found⟩

theorem Represents.tasks_same (old : Represents w a) (there : a.chains root = some s) {t : CallStack Handle Body Value Error}
    (origin : t.origin = s.origin) (given : t.given = s.given) :
    w.tasks = Function.update w.tasks root (some (t.origin,t.given)) := by
  rw [origin,given,eq_comm,Function.update_eq_self_iff]
  rw [old.tasks root,there]
  rfl

-- The coroutine in control is at the end of the chain in control.
theorem Represents.in_control {rest : List Handle} (old : Represents w a) (order : a.active = root :: rest) :
    ∃ s resumers, a.chains root = some s ∧ w.running = control s :: resumers ∧
      List.Forall₂ (fun h root => ∃ s, a.chains root = some s ∧ control s = h) resumers rest := by
  have running := old.running
  rw [order] at running
  cases run : w.running with
  | nil => rw [run] at running; cases running
  | cons h resumers =>
    rw [run] at running
    cases running with
    | cons first others =>
      obtain ⟨s,there,rfl⟩ := first
      exact ⟨s,resumers,there,rfl,others⟩

theorem Represents.inCode (old : Represents w a) (able : w.inCode = true) : a.inCode = true := by
  cases order : a.active with
  | nil => simp [CallStacks.inCode,order]
  | cons root rest =>
    obtain ⟨s,resumers,there,run,_⟩ := old.in_control order
    simp only [Coroutines.inCode,run,Option.any_eq_true,beq_iff_eq] at able
    obtain ⟨f,found,point⟩ := able
    have laid := old.laid root s there
    obtain ⟨_,rfl⟩ := laid.is_leaf (control_named s) found fun task => by rw [point]; exact fun absent => (by cases absent)
    simp [CallStacks.inCode,order,there,pointOf_runs point]

theorem Represents.leaf_of_point {f : CoroFrame Body Value Error} (old : Represents w a) (found : w.frames h = some f)
    (apart : ∀ task, f.point ≠ .co_await task) : ∃ s, a.chains f.root = some s ∧ h = s.leaf ∧
      f.body = s.body ∧ f.point = pointOf s.doing ∧ f.promise = promiseOf (nearest s.callers) s.doing := by
  obtain ⟨s,there,member⟩ := old.known h f found
  obtain ⟨same,frame⟩ := (old.laid _ _ there).is_leaf member found apart
  refine ⟨s,there,same,?_,?_,?_⟩ <;> rw [frame]

theorem Represents.begin (old : Represents w a) (tidy : a.Tidy code) (taken : w.begin h = some after) :
    ∃ label b, CallStacks.next code a label = some b ∧ Represents after b := by
  obtain ⟨f,found,taken⟩ := Option.bind_eq_some_iff.mp taken
  split at taken
  · rename_i able point
    cases taken
    obtain ⟨s,there,rfl,body,same,promise⟩ := old.leaf_of_point found fun task => by rw [point]; exact fun absent => (by cases absent)
    have begins := pointOf_begins (same.symm.trans point)
    have apart := tidy.outside there (by simp [CallStack.live,begins])
    have fresh : f.promise = promiseOf (nearest s.callers) .runs := by rw [promise,begins]; rfl
    refine ⟨.begin f.root,a.place f.root s.begin a.active,?_,?_⟩
    · simp [CallStacks.next,there,old.inCode able,begins]
    · refine old.change there rfl rfl ?_ rfl apart ⟨w.running,rfl,old.running⟩ (old.tasks_same there rfl rfl)
      simp only [set,CallStack.begin,pointOf,← body,← fresh]
  · cases taken

theorem Represents.resume {answer : Value} (old : Represents w a) (tidy : a.Tidy code)
    (taken : w.resume code h answer = some after) :
    ∃ label b, CallStacks.next code a label = some b ∧ Represents after b := by
  obtain ⟨f,found,taken⟩ := Option.bind_eq_some_iff.mp taken
  split at taken
  · rename_i able point
    cases taken
    obtain ⟨s,there,rfl,body,same,promise⟩ := old.leaf_of_point found fun task => by rw [point]; exact fun absent => (by cases absent)
    have waits := pointOf_waits (same.symm.trans point)
    have apart := tidy.outside there (by simp [CallStack.live,waits])
    have fresh : f.promise = promiseOf (nearest s.callers) .runs := by rw [promise,waits]; rfl
    refine ⟨.resume f.root answer,a.place f.root (s.resume code answer) a.active,?_,?_⟩
    · simp [CallStacks.next,there,old.inCode able,waits]
    · refine old.change there rfl rfl ?_ rfl apart ⟨w.running,rfl,old.running⟩ ?_
      · simp only [set,CallStack.resume,pointOf,← body,← fresh]
      · simp only [old.tasks,there,CallStack.resume,Option.map_some]
  · cases taken

theorem Represents.start (old : Represents w a) (tidy : a.Tidy code) (body : Body) : ∃ label b, CallStacks.next code a label = some b ∧
    Represents {w.create body w.created with tasks := Function.update w.tasks w.created (some (body,[]))} b := by
  have fresh := old.fresh
  have absent : w.frames w.created = none := by
    cases there : w.frames w.created with
    | none => rfl
    | some f => exact absurd (old.below _ _ there) (Nat.lt_irrefl _)
  have elsewhere : ∀ {k f}, w.frames k = some f → k ≠ w.created := by
    rintro k f found rfl
    cases absent.symm.trans found
  have outside : w.created ∉ a.active := by
    intro member
    obtain ⟨_,there,_⟩ := (tidy.active _).mp member
    cases fresh.symm.trans there
  refine ⟨.start w.created body,a.place w.created (.start w.created body) a.active,by simp [CallStacks.next,fresh],?_⟩
  refine old.place ⟨?_,rfl⟩ ?_ ?_ ?_ (Nat.le_succ _) outside ⟨w.running,rfl,old.running⟩ rfl
  · simp [create,set,CallStack.start,pointOf,promiseOf,nearest,TaskPromise.new]
  · intro k f found _
    simp only [create,set,Function.update_of_ne (elsewhere found)]
    exact found
  · intro k f found other
    by_cases same : k = w.created
    · rw [same] at found
      simp only [create,set,Function.update_self] at found
      cases found
      exact absurd rfl other
    · simpa [create,set,Function.update_of_ne same] using found
  · intro k f found mine
    by_cases same : k = w.created
    · rw [same]
      exact ⟨List.mem_cons_self,Nat.lt_succ_self _⟩
    · have before : w.frames k = some f := by simpa [create,set,Function.update_of_ne same] using found
      obtain ⟨s,there,_⟩ := old.known k f before
      rw [mine,fresh] at there
      cases there

theorem Represents.final_suspend {active : List Handle} {resumers : List Handle} {f : CoroFrame Body Value Error}
    (old : Represents w a) (there : a.chains root = some s) (apart : root ∉ active)
    (rest : List.Forall₂ (fun h root => ∃ s, a.chains root = some s ∧ control s = h) resumers active)
    (frame : f = ⟨s.body,.running,promiseOf (nearest s.callers) .runs,root⟩) (promise : TaskPromise Value Error)
    (mine : promise = promiseOf (nearest s.callers) (.ended outcome)) :
    Represents (w.final_suspend s.leaf f promise resumers) (a.place root {s with doing := .ended outcome} active) := by
  refine old.change there rfl rfl ?_ rfl apart ⟨resumers,?_,rest⟩ (old.tasks_same there rfl rfl)
  · simp only [Coroutines.final_suspend,set,frame,mine,pointOf]
  · simp only [Coroutines.final_suspend,mine,promiseOf_continuation,control,CallStack.live]
    cases s.callers with
    | nil => rfl
    | cons caller callers => rfl

-- A new Task is not done: the awaiter is suspended and the task has control.
theorem co_await_new (w : Coroutines Body Value Error) (h : Handle) (f : CoroFrame Body Value Error) (callee : Body)
    (resumers : List Handle) : w.co_await code h f callee resumers = some ((w.create callee f.root).await_suspend h f
      w.created ⟨callee,.initial_suspend,.new,f.root⟩ resumers) := by
  simp [Coroutines.co_await,create,set,CoroFrame.done]

theorem co_await_frames {f : CoroFrame Body Value Error} {callee : Body} {resumers : List Handle} (differ : h ≠ w.created)
    (same : after = (w.create callee f.root).await_suspend h f w.created ⟨callee,.initial_suspend,.new,f.root⟩ resumers) :
    after.frames h = some {f with point := .co_await w.created} ∧
    after.frames w.created = some ⟨callee,.running,⟨some h,none,none⟩,f.root⟩ ∧
    ∀ k, k ≠ h → k ≠ w.created → after.frames k = w.frames k := by
  subst same
  refine ⟨?_,?_,fun k one two => ?_⟩
  · simp [await_suspend,create,set,Function.update_of_ne differ]
  · simp [await_suspend,create,set,TaskPromise.new]
  · simp [await_suspend,create,set,Function.update_of_ne one,Function.update_of_ne two]

variable (code) in
theorem Represents.co_await {active : List Handle} {resumers : List Handle} {f : CoroFrame Body Value Error} {callee : Body}
    (old : Represents w a) (there : a.chains root = some s) (runs : s.doing = .runs) (apart : root ∉ active)
    (rest : List.Forall₂ (fun h root => ∃ s, a.chains root = some s ∧ control s = h) resumers active)
    (frame : f = ⟨s.body,.running,promiseOf (nearest s.callers) .runs,root⟩) :
    ∃ after, w.co_await code s.leaf f callee resumers = some after ∧
      Represents after (a.place root {s with leaf := w.created,body := callee,callers := (s.leaf,s.body) :: s.callers} active) := by
  have laid := old.laid root s there
  have lower := old.below _ _ laid.leaf
  have differ : s.leaf ≠ w.created := Nat.ne_of_lt lower
  refine ⟨_,co_await_new w s.leaf f callee resumers,?_⟩
  generalize same : (w.create callee f.root).await_suspend s.leaf f w.created ⟨callee,.initial_suspend,.new,f.root⟩ resumers = after
  obtain ⟨awaiter,awaited,elsewhere⟩ := co_await_frames differ same.symm
  have created : after.created = w.created + 1 := by rw [← same]; rfl
  subst frame
  have old_frame : ∀ {k g}, w.frames k = some g → k ≠ w.created :=
    fun found equal => absurd (old.below _ _ found) (by rw [equal]; exact Nat.lt_irrefl _)
  refine old.place ⟨?_,lower,awaiter,?_⟩ ?_ ?_ ?_ (by rw [created]; exact Nat.le_succ _) apart ⟨resumers,?_,rest⟩ ?_
  · rw [awaited,runs]
    rfl
  · refine laid.callers.move fun k under => ?_
    exact elsewhere k (Nat.ne_of_lt under) (Nat.ne_of_lt (Nat.lt_trans under lower))
  · intro k g found other
    have away : k ≠ s.leaf := by
      rintro rfl
      cases laid.leaf.symm.trans found
      exact other rfl
    rw [elsewhere k away (old_frame found)]
    exact found
  · intro k g found other
    by_cases one : k = s.leaf
    · rw [one,awaiter] at found
      cases found
      exact absurd rfl other
    · by_cases two : k = w.created
      · rw [two,awaited] at found
        cases found
        exact absurd rfl other
      · rw [elsewhere k one two] at found
        exact found
  · intro k g found mine
    by_cases two : k = w.created
    · rw [two,created]
      exact ⟨List.mem_cons_self,Nat.lt_succ_self _⟩
    · by_cases one : k = s.leaf
      · rw [one,created]
        exact ⟨List.mem_cons_of_mem _ List.mem_cons_self,Nat.lt_succ_of_lt lower⟩
      · rw [elsewhere k one two] at found
        obtain ⟨u,known,member⟩ := old.known k g found
        rw [mine,there] at known
        cases known
        rw [created]
        exact ⟨List.mem_cons_of_mem _ member,Nat.lt_succ_of_lt (old.below k g found)⟩
  · rw [← same]
    simp only [CallStack.live,control,runs]
    rfl
  · rw [← same]
    exact old.tasks_same there rfl rfl

-- A finished coroutine hands its outcome to the one that awaits it, and goes.
variable (code) in
theorem Represents.await_resume {active : List Handle} {resumers : List Handle} {f : CoroFrame Body Value Error}
    {caller : Handle} {body : Body} (old : Represents w a) (there : a.chains root = some s) (ended : s.doing = .ended outcome)
    (called : s.callers = (caller,body) :: callers) (apart : root ∉ active) (run : w.running = caller :: resumers)
    (rest : List.Forall₂ (fun h root => ∃ s, a.chains root = some s ∧ control s = h) resumers active)
    (frame : f = ⟨body,.co_await s.leaf,⟨nearest callers,none,none⟩,root⟩) :
    ∃ after, w.await_resume code caller f s.leaf = some after ∧ Represents after
      (a.place root {s with leaf := caller,body := code.resume body outcome,doing := .runs,callers := callers} active) := by
  have laid := old.laid root s there
  have chain := laid.callers
  rw [called] at chain
  obtain ⟨lower,found_caller,outer⟩ := chain
  have leaf := laid.leaf
  rw [ended] at leaf
  subst frame
  refine ⟨_,by simp only [Coroutines.await_resume,leaf,Option.bind_eq_bind,Option.bind_some,promiseOf_result]; rfl,?_⟩
  have differ : caller ≠ s.leaf := Nat.ne_of_lt lower
  have frames : ∀ {k}, k ≠ caller → k ≠ s.leaf → Function.update (Function.update w.frames caller
      (some ⟨code.resume body outcome,.running,⟨nearest callers,none,none⟩,root⟩)) s.leaf none k = w.frames k := by
    intro k one two
    rw [Function.update_of_ne two,Function.update_of_ne one]
  refine old.place ⟨?_,?_⟩ ?_ ?_ ?_ (Nat.le_refl _) apart ⟨resumers,run,rest⟩ (old.tasks_same there rfl rfl)
  · simp [set,Function.update_of_ne differ,pointOf,promiseOf]
  · exact outer.move fun k under => frames (Nat.ne_of_lt under) (Nat.ne_of_lt (Nat.lt_trans under lower))
  · intro k g found other
    have one : k ≠ caller := by
      rintro rfl
      cases found_caller.symm.trans found
      exact other rfl
    have two : k ≠ s.leaf := by
      rintro rfl
      cases leaf.symm.trans found
      exact other rfl
    exact (frames one two).trans found
  · intro k g found other
    by_cases two : k = s.leaf
    · simp [set,two] at found
    · by_cases one : k = caller
      · simp only [set,one,Function.update_of_ne differ,Function.update_self] at found
        cases found
        exact absurd rfl other
      · exact (frames one two).symm.trans found
  · intro k g found mine
    by_cases two : k = s.leaf
    · simp [set,two] at found
    · by_cases one : k = caller
      · rw [one]
        exact ⟨List.mem_cons_self,old.below _ _ found_caller⟩
      · have before : w.frames k = some g := (frames one two).symm.trans found
        obtain ⟨u,known,member⟩ := old.known k g before
        rw [mine,there] at known
        cases known
        refine ⟨?_,old.below k g before⟩
        rw [names,called] at member
        rcases List.mem_cons.mp member with here | others
        · exact absurd here two
        · exact others

-- The coroutine in control can always go on, as its chain of calls does.
theorem Represents.step {rest : List Handle} (old : Represents w a) (tidy : a.Tidy code) (order : a.active = root :: rest) :
    ∃ s after, a.chains root = some s ∧ w.step code = some after ∧
      Represents after (a.place root (s.step code w.created) rest) := by
  obtain ⟨s,resumers,there,run,others⟩ := old.in_control order
  refine ⟨s,?_⟩
  have laid := old.laid root s there
  obtain ⟨t,same,alive⟩ := (tidy.active root).mp (by rw [order]; exact List.mem_cons_self)
  cases there.symm.trans same
  have once := tidy.once
  rw [order] at once
  have apart := (List.nodup_cons.mp once).1
  unfold Coroutines.step
  cases doing : s.doing with
  | begins => simp [CallStack.live,doing] at alive
  | waits => simp [CallStack.live,doing] at alive
  | runs =>
    have leaf := laid.leaf
    rw [doing] at leaf
    have here : control s = s.leaf := by simp [control,doing]
    simp only [run,here,leaf,Option.bind_eq_bind,Option.bind_some,pointOf]
    cases does : code.does s.body with
    | ends outcome =>
      cases outcome with
      | ok val =>
        rw [CallStack.step_ends doing does]
        exact ⟨_,there,rfl,old.final_suspend there apart others rfl _ rfl⟩
      | error current =>
        rw [CallStack.step_ends doing does]
        exact ⟨_,there,rfl,old.final_suspend there apart others rfl _ rfl⟩
    | calls callee =>
      rw [CallStack.step_calls doing does]
      obtain ⟨after,taken,kept⟩ := old.co_await code there doing apart others rfl
      exact ⟨after,there,taken,kept⟩
    | leaves =>
      rw [CallStack.step_leaves doing does]
      exact ⟨_,there,rfl,old.change there rfl rfl rfl rfl apart ⟨resumers,rfl,others⟩ (old.tasks_same there rfl rfl)⟩
  | ended outcome =>
    cases called : s.callers with
    | nil => simp [CallStack.live,doing,called] at alive
    | cons caller callers =>
      obtain ⟨caller,body⟩ := caller
      have chain := laid.callers
      rw [called] at chain
      have here : control s = caller := by simp [control,doing,called,nearest]
      simp only [run,here,chain.2.1,Option.bind_eq_bind,Option.bind_some]
      obtain ⟨after,taken,kept⟩ := old.await_resume code there doing called apart (by rw [run,here]) others rfl
      rw [CallStack.step_returns doing called]
      exact ⟨after,there,taken,kept⟩

theorem owned_leaf {f : CoroFrame Body Value Error} (found : frames h = some f) (apart : ∀ task, f.point ≠ .co_await task)
    (fuel : Nat) : owned frames (fuel + 1) h = [h] := by
  simp only [owned,found]

-- From the root down along the awaits, and on from the innermost caller.
theorem CallersLaid.owned (laid : CallersLaid frames root h callers) (fuel : Nat) :
    owned frames (fuel + callers.length) root = (callers.map Prod.fst).reverse ++ owned frames fuel h := by
  induction callers generalizing h fuel with
  | nil => rw [show h = root from laid]; rfl
  | cons caller callers ih =>
    obtain ⟨caller,body⟩ := caller
    obtain ⟨_,found,rest⟩ := laid
    have down : Coroutines.owned frames (fuel + 1) caller = caller :: Coroutines.owned frames fuel h := by
      simp only [Coroutines.owned,found]
    rw [List.length_cons,← Nat.add_assoc,Nat.add_right_comm,ih rest (fuel + 1),down]
    simp

-- Task::destroy of a Task takes the frames of its chain and no others.
theorem Represents.owned (old : Represents w a) (there : a.chains root = some s) :
    h ∈ owned w.frames w.created root ↔ h ∈ names s := by
  have laid := old.laid root s there
  have enough := Nat.lt_of_le_of_lt laid.callers.length (old.below _ _ laid.leaf)
  obtain ⟨fuel,same⟩ := Nat.exists_eq_add_of_lt enough
  have point : ∀ task, pointOf s.doing ≠ .co_await task := by
    intro task
    cases s.doing <;> exact fun absent => (by cases absent)
  have fueled : w.created = fuel + 1 + s.callers.length := by omega
  rw [fueled,laid.callers.owned,owned_leaf laid.leaf point,names]
  simp [or_comm]

variable (code) in
theorem Represents.destroy (old : Represents w a) (held : (w.tasks root).isSome = true)
    (idle : ∀ other ∈ w.running, (w.frames other).all (·.root != root) = true) :
    CallStacks.next code a (.drop root) = some (a.drop root) ∧ Represents (w.destroy root) (a.drop root) := by
  obtain ⟨s,there⟩ : ∃ s, a.chains root = some s := by
    rw [old.tasks root,Option.isSome_map] at held
    exact Option.isSome_iff_exists.mp held
  have laid := old.laid root s there
  have apart : root ∉ a.active := by
    intro member
    obtain ⟨i,bound,same⟩ := List.getElem_of_mem member
    have short : i < w.running.length := by rw [old.running.length_eq]; exact bound
    obtain ⟨t,found,control⟩ := (List.forall₂_iff_get.mp old.running).2 i short bound
    rw [List.get_eq_getElem,same,there] at found
    cases found
    obtain ⟨f,frame,mine⟩ := laid.found (control_named s)
    have all := idle _ (List.getElem_mem short)
    rw [List.get_eq_getElem] at control
    rw [← control,frame] at all
    simp [mine] at all
  have kept : ∀ {k f}, w.frames k = some f → f.root ≠ root → (w.destroy root).frames k = some f := by
    intro k f found other
    have outside : k ∉ Coroutines.owned w.frames w.created root := by
      rw [old.owned there]
      intro member
      obtain ⟨g,same,mine⟩ := laid.found member
      cases found.symm.trans same
      exact other mine
    simp only [Coroutines.destroy,if_neg outside]
    exact found
  have back : ∀ {k f}, (w.destroy root).frames k = some f → w.frames k = some f ∧ f.root ≠ root := by
    intro k f found
    simp only [Coroutines.destroy] at found
    split at found
    · cases found
    · rename_i outside
      refine ⟨found,fun mine => outside ?_⟩
      obtain ⟨t,same,member⟩ := old.known k f found
      rw [mine,there] at same
      cases same
      exact (old.owned there).mpr member
  refine ⟨by simp [CallStacks.next,apart],?_,?_,?_,?_,?_⟩
  · intro other t found
    have differ : other ≠ root := by
      rintro rfl
      rw [CallStacks.drop_self] at found
      cases found
    rw [CallStacks.drop_other differ] at found
    exact (old.laid other t found).frame fun k f frame mine => kept frame (mine ▸ differ)
  · intro k f found
    obtain ⟨before,differ⟩ := back found
    rw [CallStacks.drop_other differ]
    exact old.known k f before
  · exact fun k f found => old.below k f (back found).1
  · refine List.forall₂_iff_zip.mpr ⟨old.running.length_eq,fun {k name} member => ?_⟩
    have differ : name ≠ root := by
      rintro rfl
      exact apart (List.of_mem_zip member).2
    rw [CallStacks.drop_other differ]
    exact (List.forall₂_iff_zip.mp old.running).2 member
  · intro other
    by_cases same : other = root
    · subst same
      simp [Coroutines.destroy]
    · simp only [Coroutines.destroy,CallStacks.drop_other same,Function.update_of_ne same]
      exact old.tasks other

theorem Represents.next {label : Label Body Value} (old : Represents w a) (tidy : a.Tidy code)
    (taken : next code w label = some after) : ∃ other b, CallStacks.next code a other = some b ∧ Represents after b := by
  cases label with
  | start body => cases taken; exact old.start tidy body
  | begin h => exact old.begin tidy taken
  | resume h answer => exact old.resume tidy taken
  | step =>
    cases order : a.active with
    | nil =>
      have none : w.running = [] := by
        have running := old.running
        rw [order] at running
        exact List.forall₂_nil_right_iff.mp running
      simp [Coroutines.next,Coroutines.step,none] at taken
    | cons root rest =>
      obtain ⟨s,reached,there,stepped,kept⟩ := old.step tidy order
      cases Option.some.inj (stepped.symm.trans taken)
      exact ⟨.step w.created,_,by simp [CallStacks.next,order,there],kept⟩
  | destroy h =>
    simp only [Coroutines.next] at taken
    split at taken
    · rename_i able
      cases taken
      obtain ⟨dropped,kept⟩ := old.destroy code able.1 able.2
      exact ⟨_,_,dropped,kept⟩
    · cases taken

-- The frames, promises and continuations on a thread are an implementation of
-- the chains of calls.
theorem represents : (machine code).Preserves (fun _ _ => True) fun w =>
    ∃ a, (CallStacks.machine code).Reached a ∧ Represents w a where
  start := by
    intro _ origin
    cases origin
    refine ⟨⟨fun _ => none,[]⟩,.start rfl,?_,?_,?_,.nil,fun _ => rfl⟩ <;>
      · intro _ _ absent
        cases absent
  step := by
    intro w label after old _ taken
    obtain ⟨a,path,kept⟩ := old
    obtain ⟨other,b,moved,next⟩ := kept.next (CallStacks.preserves.reached path) taken
    exact ⟨b,path.step moved,next⟩

-- A root whose chain has no control has a chain that cannot go on by itself.
theorem Represents.quiet (old : Represents w a) (tidy : a.Tidy code) (there : a.chains root = some s)
    (back : ∀ h ∈ w.running, ∀ f, w.frames h = some f → f.root ≠ root) : s.live = false := by
  by_contra alive
  have member := (tidy.active root).mpr ⟨s,there,by simpa using alive⟩
  obtain ⟨i,bound,same⟩ := List.getElem_of_mem member
  have short : i < w.running.length := by rw [old.running.length_eq]; exact bound
  obtain ⟨t,found,control⟩ := (List.forall₂_iff_get.mp old.running).2 i short bound
  rw [List.get_eq_getElem,same,there] at found
  cases found
  obtain ⟨f,frame,mine⟩ := (old.laid root s there).found (control_named s)
  rw [List.get_eq_getElem] at control
  rw [control] at frame
  exact back _ (List.getElem_mem short) f frame mine

-- Once a Task was resumed and control has come back to the code that holds it,
-- its coroutine is done with an outcome exactly when the plain evaluation of
-- what was called gives that outcome from the answers so far.
theorem done_iff_evaluates (path : (machine code).Reached w) (held : w.tasks root = some (body,answers))
    (begun : ∀ f, w.frames root = some f → f.point ≠ .initial_suspend)
    (back : ∀ h ∈ w.running, ∀ f, w.frames h = some f → f.root ≠ root) :
    (∃ f, w.frames root = some f ∧ f.done = true ∧ f.promise.get_result = some outcome) ↔
      code.Evaluates body answers outcome := by
  obtain ⟨a,reached,old⟩ := represents.reached path
  have tidy := CallStacks.preserves.reached reached
  rw [old.tasks root] at held
  obtain ⟨s,there,same⟩ := Option.map_eq_some_iff.mp held
  cases same
  have laid := old.laid root s there
  have faithful := tidy.faithful root s there
  have quiet := old.quiet tidy there back
  have started : s.doing ≠ .begins := by
    intro fresh
    have chain := laid.callers
    rw [faithful.fresh fresh] at chain
    have leaf := laid.leaf
    rw [show s.leaf = root from chain] at leaf
    exact begun _ leaf (by rw [fresh]; rfl)
  rw [← faithful.ended_iff quiet started]
  constructor
  · intro parts
    obtain ⟨f,found,done,result⟩ := parts
    have point : f.point = .final_suspend := by simpa [CoroFrame.done] using done
    obtain ⟨_,rfl⟩ := laid.is_leaf laid.root_named found fun task => by rw [point]; exact fun absent => (by cases absent)
    obtain ⟨last,ended⟩ := pointOf_ended point
    rw [ended,promiseOf_result] at result
    rw [ended,Option.some.inj result]
  · intro ended
    have none : s.callers = [] := by simpa [CallStack.live,ended] using quiet
    have chain := laid.callers
    rw [none] at chain
    have leaf := laid.leaf
    rw [show s.leaf = root from chain,ended] at leaf
    exact ⟨_,leaf,rfl,promiseOf_result _⟩

-- An outer coroutine awaits one that doubles the answer it gets; then it asks
-- for an answer itself and adds the two.
def doubling : Routines (List Nat) Nat Unit where
  does body := match body with
    | [0] => .calls [10]
    | [10] => .leaves
    | [10,n] => .ends (.ok (2 * n))
    | [0,_] => .leaves
    | [0,m,n] => .ends (.ok (m + n))
    | _ => .ends (.error ())
  resume body outcome := match outcome with
    | .ok n => body ++ [n]
    | .error _ => []

def doublingRun : List (Label (List Nat) Nat) :=
  [.start [0],.begin 0,.step,.step,.resume 1 4,.step,.step,.step,.resume 0 5,.step]

theorem done_with_the_sum : ∃ w, (machine doubling).run new doublingRun = some w ∧
    (∃ f, w.frames 0 = some f ∧ f.done = true ∧ f.promise.get_result = some (.ok 13)) ∧
    doubling.Evaluates [0] [4,5] (.ok 13) := by
  have found : ((machine doubling).run new doublingRun).map (fun w => (w.frames 0,w.tasks 0,w.running)) =
      some (some ⟨[0,8,5],.final_suspend,⟨none,none,some 13⟩,0⟩,some ([0],[4,5]),[]) := by decide
  obtain ⟨w,ran,parts⟩ := Option.map_eq_some_iff.mp found
  simp only [Prod.mk.injEq] at parts
  obtain ⟨frame,held,running⟩ := parts
  have path : (machine doubling).Reached w := Machine.Reached.run (.start rfl) ran
  have done : ∃ f, w.frames 0 = some f ∧ f.done = true ∧ f.promise.get_result = some (.ok 13) := ⟨_,frame,rfl,rfl⟩
  refine ⟨w,ran,done,(done_iff_evaluates path held ?_ ?_).mp done⟩
  · intro f same
    cases frame.symm.trans same
    exact fun absent => (by cases absent)
  · rw [running]
    exact fun _ absent => (by cases absent)

end NewMuduo.Coroutines
