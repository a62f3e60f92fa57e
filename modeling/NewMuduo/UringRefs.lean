import NewMuduo.UringConnectionClose

namespace NewMuduo

-- A UringTcpConnection with all that holds a shared_ptr to it: connections_,
-- removeConnectionInLoop on the server's loop, waiting or run in a round that is
-- not over (bound), the guard closures, waiting or run in the connection's own
-- round (ran), and the handler, by its parameter. round is how many of the
-- functors that doPendingFunctors took out are still to run. destroyed counts the
-- runs of ~UringTcpConnection; inside says that one came at the end of the
-- co_await in connectionLoop, whose frame it destroys.
structure UringRefs where
  conn : UringTcpConnection
  round : Option Nat
  ran : List UringFunctor
  bound : Nat
  destroyed : Nat
  inside : Bool
  deriving DecidableEq, Repr

namespace UringRefs

def refs (s : UringRefs) : Nat :=
  s.conn.mapped.toNat + s.conn.removals + s.bound + s.conn.functors.count .guard + s.ran.count .guard + (!s.conn.returned).toNat

-- Closures with a shared_ptr are destroyed; the last one destroys the connection.
def drops (s after : UringRefs) : UringRefs :=
  if 0 < s.refs ∧ after.refs = 0 then {after with destroyed := after.destroyed + 1} else after

inductive Label where
  | handler (label : UringTcpConnection.Label)
  | ret
  | swap
  | functor
  | roundEnds
  | removeConnectionInLoop
  | removalEnds
  deriving DecidableEq, Repr

-- What the handler and its completions do; poll runs no functors.
def admits (s : UringRefs) : UringTcpConnection.Label → Bool
  | .read _ | .send _ | .suspend | .resume | .shutdown | .forceclose => true
  | .completed .. => s.round.isNone
  | .ret | .functor | .removeConnectionInLoop => false

-- The end of co_await handle_(shared_from_this()) destroys the handler's frame,
-- then connectionLoop goes on.
def ret (s : UringRefs) : Option UringRefs :=
  let left := {s with conn := {s.conn with running := false,returned := true}}
  if left.refs = 0 then some {left with destroyed := s.destroyed + 1,inside := true}
  else (s.conn.next .ret).map fun conn => {s with conn := conn}

def next (s : UringRefs) : Label → Option UringRefs
  | .handler label => if !s.inside && s.admits label then (s.conn.next label).map fun conn => {s with conn := conn} else none
  | .ret => if !s.inside && s.conn.running then s.ret else none
  | .swap => if !s.inside && !s.conn.running && s.round.isNone then some {s with round := some s.conn.functors.length} else none
  | .functor =>
    match s.inside,s.round,s.conn.functors with
    | false,some (left + 1),cb :: _ =>
      (s.conn.next .functor).map fun conn => {s with conn := conn,round := some left,ran := s.ran ++ [cb]}
    | _,_,_ => none
  | .roundEnds =>
    if !s.inside && !s.conn.running && s.round = some 0 then some (s.drops {s with round := none,ran := []}) else none
  | .removeConnectionInLoop =>
    if s.inside then none
    else (s.conn.next .removeConnectionInLoop).map fun conn => {s with conn := conn,bound := s.bound + 1}
  | .removalEnds => if !s.inside && decide (0 < s.bound) then some (s.drops {s with bound := 0}) else none

-- start() has run up to the handler's first step.
def machine : Machine UringRefs Label where
  start s := ∃ conn, UringTcpConnection.machine.start conn ∧ s = ⟨conn,none,[],0,0,false⟩
  next := next

end UringRefs
end NewMuduo
