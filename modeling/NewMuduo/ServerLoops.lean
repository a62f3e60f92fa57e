import NewMuduo.ServerConnections
import Mathlib.Data.Int.CardIntervalMod
import Mathlib.Data.List.Nodup

namespace NewMuduo

namespace EventLoopThreadPool
variable {Loop : Type u} {pool : EventLoopThreadPool Loop}

-- The loop that the c-th call of getNextLoop gives out.
def turn (pool : EventLoopThreadPool Loop) (c : Nat) : Loop := (pool.loops[c % pool.loops.length]?).getD pool.baseLoop

-- Where next_ stands after so many calls.
def Dealt (pool : EventLoopThreadPool Loop) (calls : Nat) : Prop := pool.loops ≠ [] → pool.next = calls % pool.loops.length

theorem getNextLoop_loops (pool : EventLoopThreadPool Loop) : pool.getNextLoop.2.loops = pool.loops ∧
    pool.getNextLoop.2.baseLoop = pool.baseLoop := by
  unfold getNextLoop
  split
  · exact ⟨rfl,rfl⟩
  · dsimp only
    split <;> exact ⟨rfl,rfl⟩

theorem Dealt.getNextLoop {calls : Nat} (dealt : Dealt pool calls) :
    pool.getNextLoop.1 = pool.turn calls ∧ Dealt pool.getNextLoop.2 (calls + 1) := by
  unfold EventLoopThreadPool.getNextLoop turn
  split
  · rename_i none
    refine ⟨?_,fun some => absurd none some⟩
    rw [none]
    rfl
  · rename_i some
    have size : 0 < pool.loops.length := List.length_pos_iff.mpr some
    have next := dealt some
    have inside : calls % pool.loops.length < pool.loops.length := Nat.mod_lt calls size
    have given : pool.loops[calls % pool.loops.length]? = Option.some pool.loops[calls % pool.loops.length] :=
      List.getElem?_eq_getElem inside
    have first : pool.loops.get ⟨pool.next,pool.bounded.resolve_left some⟩ = pool.loops[calls % pool.loops.length] := by
      rw [List.get_eq_getElem]
      congr 1
    have later : (calls + 1) % pool.loops.length = (pool.next + 1) % pool.loops.length := by
      rw [next]
      exact (Nat.mod_add_mod calls pool.loops.length 1).symm
    rw [given]
    dsimp only
    split
    · rename_i below
      exact ⟨first,fun _ => (later.trans (Nat.mod_eq_of_lt below)).symm⟩
    · rename_i last
      have full : pool.next + 1 = pool.loops.length := by omega
      exact ⟨first,fun _ => (later.trans (by rw [full,Nat.mod_self])).symm⟩

end EventLoopThreadPool

namespace TcpServer
variable {Loop : Type u} {s : TcpServer Loop} {conn next : Conn Loop} {c : Nat} {loop : Loop} {task : Task}

-- What the server knows of its loops: it changes at newConnection only.
structure SameLoops (s after : TcpServer Loop) : Prop where
  loop : after.loop = s.loop
  threadPool : after.threadPool = s.threadPool
  accepted : after.accepted = s.accepted
  conns : ∀ c, (after.conns c).map Conn.loop = (s.conns c).map Conn.loop

theorem SameLoops.refl (s : TcpServer Loop) : SameLoops s s := ⟨rfl,rfl,rfl,fun _ => rfl⟩

theorem SameLoops.trans {middle after : TcpServer Loop} (first : SameLoops s middle) (second : SameLoops middle after) :
    SameLoops s after :=
  ⟨second.loop.trans first.loop,second.threadPool.trans first.threadPool,second.accepted.trans first.accepted,
    fun c => (second.conns c).trans (first.conns c)⟩

theorem deref_loops (use : Conn Loop → TcpServer Loop) (kept : ∀ conn, s.conns c = some conn → SameLoops s (use conn)) :
    SameLoops s (s.deref c use) := by
  unfold deref
  split
  · rename_i conn found
    exact kept conn found
  · exact ⟨rfl,rfl,rfl,fun _ => rfl⟩

theorem update_loops (found : s.conns c = some conn) (same : next.loop = conn.loop) (other : Nat) :
    (Function.update s.conns c (some next) other).map Conn.loop = (s.conns other).map Conn.loop := by
  by_cases here : other = c
  · rw [here,Function.update_self,found,Option.map_some,Option.map_some,same]
  · rw [Function.update_of_ne here]

variable [DecidableEq Loop]

theorem perform_loops (s : TcpServer Loop) (task : Task) : SameLoops s (s.perform task) := by
  cases task with
  | connectEstablished c => exact deref_loops _ fun conn found => ⟨rfl,rfl,rfl,update_loops found rfl⟩
  | removeConnectionInLoop c => exact deref_loops _ fun conn found => ⟨rfl,rfl,rfl,fun _ => rfl⟩
  | connectDestroyed c => exact deref_loops _ fun conn found => ⟨rfl,rfl,rfl,update_loops found rfl⟩

theorem runInLoop_loops (s : TcpServer Loop) (here loop : Loop) (task : Task) : SameLoops s (s.runInLoop here loop task) := by
  unfold runInLoop
  split
  · exact perform_loops s task
  · exact ⟨rfl,rfl,rfl,fun _ => rfl⟩

theorem handleClose_loops (s : TcpServer Loop) (c : Nat) : SameLoops s (s.handleClose c) := by
  refine deref_loops _ fun conn found => ?_
  have closed : SameLoops s {s with
      conns := Function.update s.conns c (some {conn with state := .kDisconnected,closed := true})
      fault := s.fault || !(conn.state == StateE.kConnected || conn.state == StateE.kDisconnecting)} :=
    ⟨rfl,rfl,rfl,update_loops found rfl⟩
  exact closed.trans (runInLoop_loops _ _ _ _)

theorem apply_loops (s : TcpServer Loop) (label : Label Loop) (other : label ≠ .newConnection) : SameLoops s (s.apply label) := by
  cases label with
  | newConnection => exact absurd rfl other
  | handleEvent c => exact ⟨rfl,rfl,rfl,fun _ => rfl⟩
  | handleClose c => exact handleClose_loops s c
  | shutdown c => exact deref_loops _ fun conn found => ⟨rfl,rfl,rfl,update_loops found rfl⟩
  | swap loop => exact ⟨rfl,rfl,rfl,fun _ => rfl⟩
  | runFunctor loop =>
    unfold apply runFunctor
    dsimp only
    split
    · rename_i task rest pendingFunctors _
      have taken : SameLoops s {s with tasks := Function.update s.tasks loop ⟨rest,pendingFunctors⟩} := ⟨rfl,rfl,rfl,fun _ => rfl⟩
      exact taken.trans (perform_loops _ _)
    · exact .refl s

-- The connections are on the loops in turn, and next_ is where the turn is.
structure InTurn (s : TcpServer Loop) : Prop where
  base : s.threadPool.baseLoop = s.loop
  next : s.threadPool.Dealt s.accepted
  conns : ∀ c, (s.conns c).map Conn.loop = if c < s.accepted then some (s.threadPool.turn c) else none

omit [DecidableEq Loop] in
theorem InTurn.same {after : TcpServer Loop} (old : InTurn s) (same : SameLoops s after) : InTurn after := by
  refine ⟨?_,?_,fun c => ?_⟩
  · rw [same.threadPool,same.loop]
    exact old.base
  · rw [same.threadPool,same.accepted]
    exact old.next
  · rw [same.conns,same.threadPool,same.accepted]
    exact old.conns c

theorem InTurn.newConnection (old : InTurn s) : InTurn s.newConnection := by
  obtain ⟨given,next⟩ := old.next.getNextLoop
  obtain ⟨loops,base⟩ := s.threadPool.getNextLoop_loops
  have turn : ∀ c, s.threadPool.getNextLoop.2.turn c = s.threadPool.turn c := by
    intro c
    unfold EventLoopThreadPool.turn
    rw [loops,base]
  have accepted : InTurn {s with
      nextConnId := (s.nextConnId + 1).bmod (2 ^ 32)
      threadPool := s.threadPool.getNextLoop.2
      conns := Function.update s.conns s.accepted
        (some ⟨s.threadPool.getNextLoop.1,connName s.name s.nextConnId,.kConnecting,false,false⟩)
      accepted := s.accepted + 1
      connections := Function.update s.connections (connName s.name s.nextConnId) (some s.accepted)} := by
    refine ⟨base.trans old.base,next,fun c => ?_⟩
    change (Function.update s.conns s.accepted _ c).map Conn.loop =
      if c < s.accepted + 1 then some (s.threadPool.getNextLoop.2.turn c) else none
    rw [turn]
    by_cases here : c = s.accepted
    · rw [here,Function.update_self,if_pos (Nat.lt_succ_self _),Option.map_some,given]
    · rw [Function.update_of_ne here,old.conns c]
      have same : c < s.accepted + 1 ↔ c < s.accepted := by omega
      simp only [same]
  exact accepted.same (runInLoop_loops _ _ _ _)

theorem in_turn : (machine : Machine (TcpServer Loop) (Label Loop)).Preserves (fun _ _ => True) InTurn := by
  refine Machine.guarded_preserves ?_ fun s label old _ => ?_
  · intro s origin
    obtain ⟨loop,name,loops,rfl⟩ := origin
    exact ⟨rfl,fun _ => (Nat.zero_mod _).symm,fun c => (if_neg (Nat.not_lt_zero c)).symm⟩
  · by_cases accept : label = .newConnection
    · rw [accept]
      exact old.newConnection
    · exact old.same (apply_loops s label accept)

-- The loop whose assertInLoopThread a task calls.
def home (s : TcpServer Loop) : Task → Loop
  | .connectEstablished c | .connectDestroyed c => s.threadPool.turn c
  | .removeConnectionInLoop _ => s.loop

theorem Lives.home {stage : Nat → Stage} (lives : Lives s stage none) (turns : InTurn s) (here : task ∈ s.waiting loop) :
    loop = s.home task := by
  have due := lives.errands.due_of_mem here
  obtain ⟨conn,found,errand⟩ := Option.bind_eq_some_iff.mp due
  have below := lives.fresh _ conn found
  have own := turns.conns task.conn
  rw [found,if_pos below,Option.map_some] at own
  have place : conn.loop = s.threadPool.turn task.conn := Option.some.inj own
  have stage' := errand_stage errand
  rw [stage'] at errand
  cases task with
  | connectEstablished c | connectDestroyed c =>
    cases errand
    exact place
  | removeConnectionInLoop c =>
    cases errand
    rfl

-- Of the first connections every n-th is on the loop at a place.
theorem InTurn.share (old : InTurn s) (distinct : s.threadPool.loops.Nodup) (inside : i < s.threadPool.loops.length) :
    Nat.count (fun c => (s.conns c).map Conn.loop = some s.threadPool.loops[i]) s.accepted =
      s.accepted / s.threadPool.loops.length + if i < s.accepted % s.threadPool.loops.length then 1 else 0 := by
  have size : 0 < s.threadPool.loops.length := Nat.lt_of_le_of_lt (Nat.zero_le i) inside
  have turn : ∀ c, c < s.accepted → ((s.conns c).map Conn.loop = some s.threadPool.loops[i] ↔
      c ≡ i [MOD s.threadPool.loops.length]) := by
    intro c below
    have place : c % s.threadPool.loops.length < s.threadPool.loops.length := Nat.mod_lt c size
    rw [old.conns c,if_pos below,Option.some.injEq,EventLoopThreadPool.turn,List.getElem?_eq_getElem place,Option.getD_some,
      distinct.getElem_inj_iff,Nat.ModEq,Nat.mod_eq_of_lt inside]
  have same : Nat.count (fun c => (s.conns c).map Conn.loop = some s.threadPool.loops[i]) s.accepted =
      Nat.count (fun c => c ≡ i [MOD s.threadPool.loops.length]) s.accepted := by
    rw [Nat.count_eq_card_filter_range,Nat.count_eq_card_filter_range]
    congr 1
    exact Finset.filter_congr fun c below => turn c (Finset.mem_range.mp below)
  rw [same,Nat.count_modEq_card _ size,Nat.mod_eq_of_lt inside]

-- The connections go to the loops in turn, so their numbers differ by one at
-- most, and no task waits on a loop where its assertInLoopThread would fail.
theorem connections_in_turn (path : machine.Reached s) :
    (∀ c, (s.conns c).map Conn.loop = if c < s.accepted then some (s.threadPool.turn c) else none) ∧
    (s.threadPool.loops.Nodup → ∀ i (inside : i < s.threadPool.loops.length),
      Nat.count (fun c => (s.conns c).map Conn.loop = some s.threadPool.loops[i]) s.accepted =
        s.accepted / s.threadPool.loops.length + if i < s.accepted % s.threadPool.loops.length then 1 else 0) ∧
    (s.accepted < 2 ^ 31 → ∀ loop, ∀ task ∈ s.waiting loop, loop = s.home task) := by
  have turns := in_turn.reached path
  refine ⟨turns.conns,fun distinct i inside => turns.share distinct inside,fun few loop task here => ?_⟩
  obtain ⟨stage,lives⟩ := kept.reached path few
  exact lives.home turns here

theorem five_connections_on_two_loops : ∃ s, machine.run (new 0 "echo" [1,2])
      [.newConnection,.newConnection,.newConnection,.newConnection,.newConnection] = some s ∧
    s.waiting 1 = [.connectEstablished 0,.connectEstablished 2,.connectEstablished 4] ∧
    Nat.count (fun c => (s.conns c).map Conn.loop = some 1) 5 = 3 := by
  refine ⟨_,rfl,rfl,?_⟩
  obtain ⟨_,share,_⟩ := connections_in_turn (@Machine.Reached.run _ _ machine (new 0 "echo" [1,2])
    [.newConnection,.newConnection,.newConnection,.newConnection,.newConnection] _ (.start ⟨_,_,_,rfl⟩) rfl)
  exact share (by decide) 0 (by decide)

end TcpServer
end NewMuduo
