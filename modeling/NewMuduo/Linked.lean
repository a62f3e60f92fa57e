import Mathlib.Data.List.Basic
import Mathlib.Logic.Function.Basic

namespace NewMuduo

-- A chain of nodes through a link field: from first over these nodes and then
-- to null. Nothing here depends on what the nodes are.
inductive Linked {Node : Type u} (null : Node) (next : Node → Node) : Node → List Node → Prop where
  | nil : Linked null next null []
  | cons : node ≠ null → Linked null next (next node) rest → Linked null next node (node :: rest)

namespace Linked
variable {Node : Type u} {null first other node : Node} {next after : Node → Node} {nodes others : List Node}

theorem pop (old : Linked null next first nodes) (real : first ≠ null) :
    ∃ rest, nodes = first :: rest ∧ Linked null next (next first) rest := by
  cases old with
  | nil => exact absurd rfl real
  | cons _ tail => exact ⟨_,rfl,tail⟩

theorem empty (old : Linked null next first nodes) (none : first = null) : nodes = [] := by
  cases old with
  | nil => rfl
  | cons real _ => exact absurd none real

-- The links decide the chain, and the chain where it starts.
theorem unique (old : Linked null next first nodes) (also : Linked null next first others) : nodes = others := by
  induction old generalizing others with
  | nil => exact (also.empty rfl).symm
  | cons real _ ih =>
    obtain ⟨rest,rfl,tail⟩ := also.pop real
    rw [ih tail]

theorem start_unique (old : Linked null next first nodes) (also : Linked null after other nodes) : other = first := by
  cases old with
  | nil => cases also; rfl
  | cons _ _ => cases also; rfl

-- Links of nodes outside the chain may change.
theorem frame (old : Linked null next first nodes) (same : ∀ node ∈ nodes, after node = next node) :
    Linked null after first nodes := by
  induction old with
  | nil => exact .nil
  | @cons head rest here _ ih =>
    refine .cons here ?_
    rw [same head List.mem_cons_self]
    exact ih fun node later => same node (List.mem_cons_of_mem _ later)

section pushed
variable [DecidableEq Node] {head : Node} {added : List Node}

theorem push_one (old : Linked null next first nodes) (real : node ≠ null) (apart : node ∉ nodes) :
    Linked null (Function.update next node first) node (node :: nodes) := by
  refine .cons real ?_
  rw [Function.update_self]
  refine old.frame fun other member => Function.update_of_ne ?_ _ _
  rintro rfl
  exact apart member

-- The link field and the first node once these nodes have been pushed in turn.
def pushed (next : Node → Node) (head : Node) : List Node → (Node → Node) × Node
  | [] => (next,head)
  | node :: rest => pushed (Function.update next node head) node rest

theorem pushed_snoc (next : Node → Node) (head : Node) (added : List Node) (node : Node) :
    pushed next head (added ++ [node]) = (Function.update (pushed next head added).1 node (pushed next head added).2,node) := by
  induction added generalizing next head with
  | nil => rfl
  | cons one rest ih => exact ih _ _

theorem pushed_other (apart : node ∉ added) : (pushed next head added).1 node = next node := by
  induction added generalizing next head with
  | nil => rfl
  | cons one rest ih =>
    rw [List.mem_cons,not_or] at apart
    exact (ih apart.2).trans (Function.update_of_ne apart.1 _ _)

theorem pushed_linked (old : Linked null next head nodes) (once : added.Nodup) (real : ∀ node ∈ added, node ≠ null)
    (apart : ∀ node ∈ added, node ∉ nodes) :
    Linked null (pushed next head added).1 (pushed next head added).2 (added.reverse ++ nodes) := by
  induction added generalizing next head nodes with
  | nil => exact old
  | cons one rest ih =>
    obtain ⟨first,others⟩ := List.nodup_cons.mp once
    have here := old.push_one (real one List.mem_cons_self) (apart one List.mem_cons_self)
    rw [List.reverse_cons,List.append_assoc]
    refine ih here others (fun node later => real node (List.mem_cons_of_mem _ later)) fun node later member => ?_
    rcases List.mem_cons.mp member with rfl | old
    · exact first later
    · exact apart node (List.mem_cons_of_mem _ later) old

end pushed

-- Numbered chains through one link field, no node in two of them.
section family
variable {Index : Type v} [DecidableEq Index] [DecidableEq Node] {heads : Index → Node} {chains : Index → List Node} {index : Index}

omit [DecidableEq Index] in
theorem write (old : ∀ i, Linked null next (heads i) (chains i)) (apart : ∀ i, node ∉ chains i) (link : Node) :
    ∀ i, Linked null (Function.update next node link) (heads i) (chains i) := by
  intro i
  refine (old i).frame fun other member => Function.update_of_ne ?_ _ _
  rintro rfl
  exact apart i member

omit [DecidableEq Node] in
-- One chain is another one now.
theorem change {nodes : List Node} (old : ∀ i, Linked null next (heads i) (chains i)) (new : Linked null next first nodes) :
    ∀ i, Linked null next (Function.update heads index first i) (Function.update chains index nodes i) := by
  intro i
  by_cases same : i = index
  · rw [same,Function.update_self,Function.update_self]
    exact new
  · rw [Function.update_of_ne same,Function.update_of_ne same]
    exact old i

theorem push (old : ∀ i, Linked null next (heads i) (chains i)) (real : node ≠ null) (apart : ∀ i, node ∉ chains i) (index : Index) :
    ∀ i, Linked null (Function.update next node (heads index)) (Function.update heads index node i)
      (Function.update chains index (node :: chains index) i) := by
  have kept := write old apart (heads index)
  exact change kept ((old index).push_one real (apart index))

end family

end Linked
end NewMuduo
