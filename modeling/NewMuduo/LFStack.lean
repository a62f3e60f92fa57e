import NewMuduo.Machine
import NewMuduo.TaggedPointer
import Mathlib.Logic.Function.Basic
import Mathlib.Data.Fintype.Basic

namespace NewMuduo

-- base/TaggedPointer.h, LFStack: a thread at each access to head_ or to a node,
-- with the locals it still needs. oldHead is loaded once for the whole loop.
inductive StackCall where
  | idle
  | pushLoad (node : BitVec 64)
  | pushLink (node oldHead : BitVec 64)
  | pushExchange (node oldHead : BitVec 64)
  | popLoad
  | popCheck (oldHead : BitVec 64)
  | popNext (oldHead : BitVec 64)
  | popExchange (oldHead next : BitVec 64)
  | popTake (node : BitVec 64)
  deriving DecidableEq, Repr

-- head_ and the fields of the node at each address; the rest records the nodes
-- that new has given and no delete has taken, the pops that hold each of them
-- and what the pops returned.
structure LFStack (T Tid : Type) where
  head : BitVec 64
  next : BitVec 64 → BitVec 64
  data : BitVec 64 → T
  calls : Tid → StackCall
  live : BitVec 64 → Bool
  holders : BitVec 64 → Nat
  results : List (Tid × Option T)

namespace LFStack
open TaggedPointer
variable {T Tid : Type} [DecidableEq Tid] {s : LFStack T Tid} {t : Tid}

def put (s : LFStack T Tid) (t : Tid) (call : StackCall) : LFStack T Tid := {s with calls := Function.update s.calls t call}

def returns (s : LFStack T Tid) (t : Tid) (node : BitVec 64) (out : Option T) : LFStack T Tid :=
  {s.put t .idle with
    holders := Function.update s.holders node (s.holders node - 1)
    results := s.results ++ [(t,out)]}

-- HeadProxy::load takes the word apart and packs it again.
def load (s : LFStack T Tid) : BitVec 64 := pack (ptr s.head) (tag s.head)

-- HeadProxy::compare_exchange compares a copy of expected and writes nothing
-- back to it, so a loop that fails goes round with the oldHead it had.
def step (s : LFStack T Tid) (t : Tid) : LFStack T Tid :=
  match s.calls t with
  | .idle => s
  | .pushLoad node => s.put t (.pushLink node s.load)
  | .pushLink node oldHead =>
    {s.put t (.pushExchange node oldHead) with next := Function.update s.next node (ptr oldHead)}
  | .pushExchange node oldHead =>
    if s.head = oldHead then {s.put t .idle with head := pack node (tag oldHead)}
    else s.put t (.pushLink node oldHead)
  | .popLoad =>
    {s.put t (.popCheck s.load) with holders := Function.update s.holders (ptr s.load) (s.holders (ptr s.load) + 1)}
  | .popCheck oldHead => if ptr oldHead = 0 then s.returns t (ptr oldHead) none else s.put t (.popNext oldHead)
  | .popNext oldHead => s.put t (.popExchange oldHead (s.next (ptr oldHead)))
  | .popExchange oldHead next =>
    if s.head = oldHead then {s.put t (.popTake (ptr oldHead)) with head := pack next (tag oldHead + 1)}
    else s.put t (.popCheck oldHead)
  | .popTake node => {s.returns t node (some (s.data node)) with live := Function.update s.live node false}

inductive Label (T Tid : Type) where
  | push (t : Tid) (val : T) (node : BitVec 64)
  | pop (t : Tid)
  | step (t : Tid)

-- new gives a user-space address that is not in use, and not one of a deleted
-- node that a pop still holds.
def allowed (s : LFStack T Tid) : Label T Tid → Bool
  | .push t _ node => s.calls t == .idle && node != 0 && decide (node.toNat < 2 ^ 47) && !s.live node && s.holders node == 0
  | .pop t => s.calls t == .idle
  | .step _ => true

def apply (s : LFStack T Tid) : Label T Tid → LFStack T Tid
  | .push t val node => {s.put t (.pushLoad node) with
      next := Function.update s.next node 0
      data := Function.update s.data node val
      live := Function.update s.live node true}
  | .pop t => s.put t .popLoad
  | .step t => s.step t

def new (initial : T) : LFStack T Tid :=
  ⟨0,fun _ => 0,fun _ => initial,fun _ => .idle,fun _ => false,fun _ => 0,[]⟩

def machine (initial : T) : Machine (LFStack T Tid) (Label T Tid) :=
  .guarded (· = new initial) (fun s label => s.allowed label = true) apply

-- The thread takes the next steps and no other thread does.
def alone (s : LFStack T Tid) (t : Tid) : Nat → LFStack T Tid
  | 0 => s
  | n + 1 => (s.step t).alone t n

def Within (s : LFStack T Tid) (steps : Nat) (t : Tid) : Prop := ∃ n, n ≤ steps ∧ (s.alone t n).calls t = .idle

-- A push needs three steps at most, a pop five: one turn of the loop.
def Completes (s : LFStack T Tid) (t : Tid) : Prop := s.Within 5 t

-- The word that a call has loaded and has yet to find in head_ again.
def compares : StackCall → Option (BitVec 64)
  | .pushLink _ oldHead | .pushExchange _ oldHead => some oldHead
  | .popCheck oldHead | .popNext oldHead | .popExchange oldHead _ => if ptr oldHead = 0 then none else some oldHead
  | _ => none

-- head_ is what the call has loaded, or the call has no use for it.
def Fresh (s : LFStack T Tid) (t : Tid) : Prop := ∀ oldHead, compares (s.calls t) = some oldHead → s.head = oldHead

-- The word that a step of the thread stores into head_.
def exchanges (s : LFStack T Tid) (t : Tid) : Option (BitVec 64) :=
  match s.calls t with
  | .pushExchange node oldHead => if s.head = oldHead then some (pack node (tag oldHead)) else none
  | .popExchange oldHead next => if s.head = oldHead then some (pack next (tag oldHead + 1)) else none
  | _ => none

-- No other call holds a loaded head_ when one changes it.
def Undisturbed (s : LFStack T Tid) : Label T Tid → Prop
  | .step t =>
    match s.exchanges t with
    | some word => word = s.head ∨ ∀ u, u ≠ t → compares (s.calls u) = none
    | none => True
  | _ => True

instance [Fintype Tid] {label : Label T Tid} : Decidable (s.Undisturbed label) := by
  unfold Undisturbed
  split
  · split <;> infer_instance
  · infer_instance

omit [DecidableEq Tid] in
theorem load_eq (s : LFStack T Tid) : s.load = s.head := pack_parts s.head

@[simp] theorem put_here (s : LFStack T Tid) (t : Tid) (call : StackCall) : (s.put t call).calls t = call :=
  Function.update_self ..

-- What a step of a thread does to head_ and to what the thread compares.
structure Parts (s : LFStack T Tid) (t : Tid) (after : LFStack T Tid) : Prop where
  others : ∀ u, u ≠ t → after.calls u = s.calls u
  head : after.head = (s.exchanges t).getD s.head
  compared : ∀ oldHead, compares (after.calls t) = some oldHead → s.exchanges t = none ∧
    (oldHead = s.head ∨ compares (s.calls t) = some oldHead)

theorem Parts.quiet {call : StackCall} {after : LFStack T Tid} (none : s.exchanges t = none)
    (calls : after.calls = Function.update s.calls t call) (head : after.head = s.head)
    (same : ∀ oldHead, compares call = some oldHead → oldHead = s.head ∨ compares (s.calls t) = some oldHead) : Parts s t after := by
  refine ⟨fun u apart => ?_,?_,fun oldHead found => ?_⟩
  · rw [calls,Function.update_of_ne apart]
  · rw [none,head]
    rfl
  · rw [calls,Function.update_self] at found
    exact ⟨none,same oldHead found⟩

theorem Parts.wins {call : StackCall} {after : LFStack T Tid} (word : s.exchanges t = some after.head)
    (calls : after.calls = Function.update s.calls t call) (done : compares call = none) : Parts s t after := by
  refine ⟨fun u apart => ?_,?_,fun oldHead found => ?_⟩
  · rw [calls,Function.update_of_ne apart]
  · rw [word]
    rfl
  · rw [calls,Function.update_self,done] at found
    cases found

theorem step_parts (s : LFStack T Tid) (t : Tid) : Parts s t (s.step t) := by
  unfold step
  cases here : s.calls t with
  | idle =>
    refine .quiet (by simp [exchanges,here]) (Function.update_eq_self t s.calls).symm rfl ?_
    rw [here]
    intro oldHead found
    cases found
  | pushLoad node =>
    refine .quiet (by simp [exchanges,here]) rfl rfl fun oldHead found => .inl ?_
    exact (Option.some.inj found).symm.trans s.load_eq
  | pushLink node oldHead =>
    refine .quiet (by simp [exchanges,here]) rfl rfl fun other found => .inr ?_
    rw [here]
    exact found
  | pushExchange node oldHead =>
    dsimp only
    split
    · rename_i same
      exact .wins (by simp [exchanges,here,same]) rfl rfl
    · rename_i changed
      refine .quiet (by simp [exchanges,here,changed]) rfl rfl fun other found => .inr ?_
      rw [here]
      exact found
  | popLoad =>
    refine .quiet (by simp [exchanges,here]) rfl rfl fun oldHead found => .inl ?_
    rw [compares] at found
    split at found
    · cases found
    · exact (Option.some.inj found).symm.trans s.load_eq
  | popCheck oldHead =>
    dsimp only
    split
    · refine .quiet (by simp [exchanges,here]) rfl rfl fun other found => ?_
      cases found
    · refine .quiet (by simp [exchanges,here]) rfl rfl fun other found => .inr ?_
      rw [here]
      exact found
  | popNext oldHead =>
    refine .quiet (by simp [exchanges,here]) rfl rfl fun other found => .inr ?_
    rw [here]
    exact found
  | popExchange oldHead next =>
    dsimp only
    split
    · rename_i same
      exact .wins (by simp [exchanges,here,same]) rfl rfl
    · rename_i changed
      refine .quiet (by simp [exchanges,here,changed]) rfl rfl fun other found => .inr ?_
      rw [here]
      exact found
  | popTake node =>
    refine .quiet (by simp [exchanges,here]) rfl rfl fun other found => ?_
    cases found

-- What a stale call does: it compares the same word for ever.
theorem stale_step {oldHead : BitVec 64} (held : compares (s.calls t) = some oldHead) (changed : s.head ≠ oldHead) :
    compares ((s.step t).calls t) = some oldHead ∧ (s.step t).head = s.head := by
  unfold step
  cases here : s.calls t with
  | idle | pushLoad | popLoad | popTake => rw [here] at held; cases held
  | pushLink node other =>
    rw [here] at held
    exact ⟨by simpa [put,compares] using held,rfl⟩
  | pushExchange node other =>
    rw [here] at held
    cases Option.some.inj held
    dsimp only
    rw [if_neg changed,put_here]
    exact ⟨rfl,rfl⟩
  | popCheck other =>
    rw [here] at held
    have full : ptr other ≠ 0 := by
      intro empty
      rw [compares,if_pos empty] at held
      cases held
    dsimp only
    rw [if_neg full,put_here]
    exact ⟨held,rfl⟩
  | popNext other =>
    rw [here] at held
    dsimp only
    rw [put_here]
    exact ⟨held,rfl⟩
  | popExchange other next =>
    rw [here] at held
    have same : other = oldHead := by
      rw [compares] at held
      split at held
      · cases held
      · exact Option.some.inj held
    dsimp only
    rw [if_neg (same ▸ changed),put_here]
    exact ⟨held,rfl⟩

theorem stale_forever {oldHead : BitVec 64} (held : compares (s.calls t) = some oldHead) (changed : s.head ≠ oldHead) (n : Nat) :
    (s.alone t n).calls t ≠ .idle := by
  induction n generalizing s with
  | zero =>
    intro idle
    rw [show s.calls t = .idle from idle] at held
    cases held
  | succ n ih =>
    obtain ⟨still,same⟩ := stale_step held changed
    exact ih still (by rw [same]; exact changed)

theorem Within.step {steps : Nat} (rest : (s.step t).Within steps t) : s.Within (steps + 1) t := by
  obtain ⟨n,few,idle⟩ := rest
  exact ⟨n + 1,Nat.succ_le_succ few,idle⟩

theorem Within.mono {few many : Nat} (rest : s.Within few t) (more : few ≤ many) : s.Within many t := by
  obtain ⟨n,enough,idle⟩ := rest
  exact ⟨n,Nat.le_trans enough more,idle⟩

theorem within_idle (here : s.calls t = .idle) : s.Within 0 t := ⟨0,Nat.le_refl 0,here⟩

-- The way back from each place, the last step first.
theorem within_popTake (here : s.calls t = .popTake node) : s.Within 1 t := by
  refine Within.step (within_idle ?_)
  simp [LFStack.step,here,returns,put]

theorem within_popExchange (here : s.calls t = .popExchange s.head nextPtr) : s.Within 2 t := by
  have there : (s.step t).calls t = .popTake (ptr s.head) := by simp [LFStack.step,here,put]
  exact Within.step (within_popTake there)

theorem within_popNext (here : s.calls t = .popNext s.head) : s.Within 3 t := by
  have there : (s.step t).calls t = .popExchange (s.step t).head (s.next (ptr s.head)) := by simp [LFStack.step,here,put]
  exact Within.step (within_popExchange there)

theorem within_empty (here : s.calls t = .popCheck oldHead) (empty : ptr oldHead = 0) : s.Within 1 t := by
  refine Within.step (within_idle ?_)
  simp [LFStack.step,here,empty,returns,put]

theorem within_popCheck (here : s.calls t = .popCheck s.head) : s.Within 4 t := by
  by_cases empty : ptr s.head = 0
  · exact (within_empty here empty).mono (by decide)
  · have taken : s.step t = s.put t (.popNext s.head) := by
      unfold LFStack.step
      rw [here]
      exact if_neg empty
    have there : (s.step t).calls t = .popNext (s.step t).head := by
      rw [taken]
      exact put_here s t _
    exact Within.step (within_popNext there)

-- A null that is compared no more leads back to the check.
theorem within_empty_exchange (here : s.calls t = .popExchange oldHead nextPtr) (changed : s.head ≠ oldHead)
    (empty : ptr oldHead = 0) : s.Within 2 t := by
  have there : (s.step t).calls t = .popCheck oldHead := by simp [LFStack.step,here,put,changed]
  exact Within.step (within_empty there empty)

theorem within_popLoad (here : s.calls t = .popLoad) : s.Within 5 t := by
  have there : (s.step t).calls t = .popCheck (s.step t).head := by simp [LFStack.step,here,put,load_eq]
  exact Within.step (within_popCheck there)

theorem within_pushExchange (here : s.calls t = .pushExchange node s.head) : s.Within 1 t := by
  refine Within.step (within_idle ?_)
  simp [LFStack.step,here,put]

theorem within_pushLink (here : s.calls t = .pushLink node s.head) : s.Within 2 t := by
  have there : (s.step t).calls t = .pushExchange node (s.step t).head := by simp [LFStack.step,here,put]
  exact Within.step (within_pushExchange there)

theorem within_pushLoad (here : s.calls t = .pushLoad node) : s.Within 3 t := by
  have there : (s.step t).calls t = .pushLink node (s.step t).head := by simp [LFStack.step,here,put,load_eq]
  exact Within.step (within_pushLink there)

theorem Fresh.completes (fresh : s.Fresh t) : s.Completes t := by
  unfold Completes
  unfold Fresh at fresh
  cases here : s.calls t with
  | idle => exact (within_idle here).mono (Nat.zero_le 5)
  | pushLoad node => exact (within_pushLoad here).mono (by decide)
  | pushLink node oldHead =>
    rw [here] at fresh
    cases fresh oldHead rfl
    exact (within_pushLink here).mono (by decide)
  | pushExchange node oldHead =>
    rw [here] at fresh
    cases fresh oldHead rfl
    exact (within_pushExchange here).mono (by decide)
  | popLoad => exact within_popLoad here
  | popCheck oldHead =>
    rw [here,compares] at fresh
    by_cases empty : ptr oldHead = 0
    · exact (within_empty here empty).mono (by decide)
    · cases fresh oldHead (if_neg empty)
      exact (within_popCheck here).mono (by decide)
  | popNext oldHead =>
    rw [here,compares] at fresh
    by_cases same : s.head = oldHead
    · cases same
      exact (within_popNext here).mono (by decide)
    · have empty : ptr oldHead = 0 := by
        by_contra full
        exact same (fresh oldHead (if_neg full))
      have there : (s.step t).calls t = .popExchange oldHead (s.next (ptr oldHead)) := by simp [LFStack.step,here,put]
      have changed : (s.step t).head ≠ oldHead := by simpa [LFStack.step,here,put] using same
      exact (Within.step (within_empty_exchange there changed empty)).mono (by decide)
  | popExchange oldHead nextPtr =>
    rw [here,compares] at fresh
    by_cases same : s.head = oldHead
    · cases same
      exact (within_popExchange here).mono (by decide)
    · have empty : ptr oldHead = 0 := by
        by_contra full
        exact same (fresh oldHead (if_neg full))
      exact (within_empty_exchange here same empty).mono (by decide)
  | popTake node => exact (within_popTake here).mono (by decide)

theorem completes_iff_fresh (s : LFStack T Tid) (t : Tid) : s.Completes t ↔ s.Fresh t := by
  constructor
  · rintro ⟨n,_,idle⟩ oldHead held
    by_contra changed
    exact stale_forever held changed n idle
  · exact Fresh.completes

omit [DecidableEq Tid] in
theorem undisturbed_of_none (none : s.exchanges t = none) : s.Undisturbed (.step t) := by
  simp only [Undisturbed,none]

omit [DecidableEq Tid] in
theorem undisturbed_word (word : s.exchanges t = some stored) :
    s.Undisturbed (.step t) ↔ stored = s.head ∨ ∀ u, u ≠ t → compares (s.calls u) = none := by
  simp only [Undisturbed,word]

theorem fresh_step (old : ∀ u, s.Fresh u) (calm : s.Undisturbed (.step t)) : ∀ u, (s.step t).Fresh u := by
  have parts := step_parts s t
  intro u oldHead held
  rw [parts.head]
  by_cases same : u = t
  · subst same
    obtain ⟨none,which⟩ := parts.compared oldHead held
    rw [none]
    rcases which with loaded | kept
    · exact loaded.symm
    · exact old u oldHead kept
  · rw [parts.others u same] at held
    have before := old u oldHead held
    cases word : s.exchanges t with
    | none => exact before
    | some stored =>
      rcases (undisturbed_word word).mp calm with equal | alone
      · exact equal.trans before
      · rw [alone u same] at held
        cases held

-- The call whose word was changed under it is lost.
theorem stale_after (old : ∀ u, s.Fresh u) (disturbed : ¬s.Undisturbed (.step t)) : ∃ u, ¬(s.step t).Fresh u := by
  have parts := step_parts s t
  cases word : s.exchanges t with
  | none => exact absurd (undisturbed_of_none word) disturbed
  | some stored =>
    rw [undisturbed_word word,not_or,not_forall] at disturbed
    obtain ⟨changed,u,other⟩ := disturbed
    obtain ⟨apart,holds⟩ := Classical.not_imp.mp other
    obtain ⟨oldHead,held⟩ := Option.ne_none_iff_exists'.mp holds
    refine ⟨u,fun fresh => ?_⟩
    rw [← parts.others u apart] at held
    have now := fresh oldHead held
    rw [parts.others u apart] at held
    rw [parts.head,word] at now
    exact changed (now.trans (old u oldHead held).symm)

theorem fresh_call {call : StackCall} (old : ∀ u, s.Fresh u) (none : compares call = none) {after : LFStack T Tid}
    (head : after.head = s.head) (calls : after.calls = Function.update s.calls t call) : ∀ u, after.Fresh u := by
  intro u oldHead held
  rw [calls] at held
  rw [head]
  by_cases same : u = t
  · subst same
    rw [Function.update_self,none] at held
    cases held
  · rw [Function.update_of_ne same] at held
    exact old u oldHead held

theorem next_fresh {initial : T} {label : Label T Tid} {after : LFStack T Tid} (old : ∀ u, s.Fresh u) (calm : s.Undisturbed label)
    (taken : (machine initial).next s label = some after) : ∀ u, after.Fresh u := by
  obtain ⟨_,same⟩ := Machine.guarded_parts.mp taken
  rw [← same]
  cases label with
  | push t val node => exact fresh_call old rfl rfl rfl
  | pop t => exact fresh_call old rfl rfl rfl
  | step t => exact fresh_step old calm

-- Every call can finish alone throughout a run exactly when no exchange of the
-- run comes between another call's load of head_ and its own exchange; and a
-- call that cannot finish in one turn of its loop never does.
theorem completes_alone_iff_undisturbed {initial : T} {labels : List (Label T Tid)} {final : LFStack T Tid}
    (ran : (machine initial).run (new initial) labels = some final) :
    ((machine initial).Throughout (fun s => ∀ t, s.Completes t) (new initial) labels ↔
      (machine initial).Meets (fun s label => s.Undisturbed label) (new initial) labels) ∧
    ∀ t, (final.Completes t ↔ final.Fresh t) ∧ ((∃ n, (final.alone t n).calls t = .idle) → final.Completes t) := by
  refine ⟨?_,fun t => ⟨completes_iff_fresh final t,fun ⟨n,idle⟩ => ?_⟩⟩
  · refine Machine.throughout_iff_meets (fun s old t => (completes_iff_fresh s t).mpr (old t))
      (fun _ _ _ old calm taken => next_fresh old calm taken) ?_ ?_ ran
    · intro s label after old disturbed taken good
      obtain ⟨_,same⟩ := Machine.guarded_parts.mp taken
      cases label with
      | push t val node => exact disturbed trivial
      | pop t => exact disturbed trivial
      | step t =>
        obtain ⟨u,stale⟩ := stale_after old disturbed
        rw [← same] at good
        exact stale ((completes_iff_fresh _ u).mp (good u))
    · intro t oldHead held
      cases held
  · rw [completes_iff_fresh]
    intro oldHead held
    by_contra changed
    exact stale_forever held changed n idle

-- A push and a pop by two threads, one after the other.
def takeTurns : List (Label Nat Bool) :=
  [.push true 7 16,.step true,.step true,.step true,.pop false,.step false,.step false,.step false,.step false,.step false,
    .pop true,.step true]

theorem completes_alone_in_turns : ∃ s, (machine 0).run (new 0) takeTurns = some s ∧ s.results = [(false,some 7)] ∧
    (machine 0).Throughout (fun s => ∀ t, s.Completes t) (new 0) takeTurns ∧ s.Completes true := by
  have found : ((machine 0).run (new 0) takeTurns).map (fun s => (s.results,compares (s.calls true))) =
      some ([(false,some 7)],none) := by decide +kernel
  obtain ⟨s,ran,parts⟩ := Option.map_eq_some_iff.mp found
  simp only [Prod.mk.injEq] at parts
  obtain ⟨results,compared⟩ := parts
  obtain ⟨exactly,states⟩ := completes_alone_iff_undisturbed ran
  refine ⟨s,ran,results,exactly.mpr (by decide +kernel),(states true).1.mpr fun oldHead held => ?_⟩
  rw [compared] at held
  cases held

-- A push that has loaded head_ when another one stores its node there.
def overtaken : List (Label Nat Bool) :=
  [.push true 7 16,.step true,.push false 8 32,.step false,.step false,.step false]

theorem overtaken_never_completes : ∃ s, (machine 0).run (new 0) overtaken = some s ∧
    ∀ n, (s.alone true n).calls true ≠ .idle := by
  have found : ((machine 0).run (new 0) overtaken).map (fun s => (compares (s.calls true),s.head)) = some (some 0,32) := by
    decide +kernel
  obtain ⟨s,ran,parts⟩ := Option.map_eq_some_iff.mp found
  simp only [Prod.mk.injEq] at parts
  obtain ⟨held,head⟩ := parts
  exact ⟨s,ran,fun n => stale_forever held (by rw [head]; decide) n⟩

end LFStack
end NewMuduo
