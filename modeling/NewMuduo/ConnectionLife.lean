import NewMuduo.TcpServer

namespace NewMuduo

-- Where a connection of a server stands: connectEstablished to run, in use,
-- removeConnectionInLoop to run, connectDestroyed to run, done.
inductive Stage where
  | waiting
  | up
  | closing
  | removed
  | destroyed
  deriving DecidableEq, Repr

def Stage.listed : Stage → Bool
  | .waiting | .up | .closing => true
  | .removed | .destroyed => false

-- Where a connection stands while its task waits.
def Task.stage : Task → Stage
  | .connectEstablished _ => .waiting
  | .removeConnectionInLoop _ => .closing
  | .connectDestroyed _ => .removed

-- The course of one connection, as what happens to it.
inductive Lived (c : Nat) : List Act → Stage → Prop where
  | accepted : Lived c [] .waiting
  | established : Lived c acts .waiting → Lived c (acts ++ [.established c]) .up
  | handled : Lived c acts stage → stage ≠ .waiting → Lived c (acts ++ [.handled c]) stage
  | closing : Lived c acts .up → Lived c acts .closing
  | removed : Lived c acts .closing → Lived c (acts ++ [.removed c (some c)]) .removed
  | destroyed : Lived c acts .removed → Lived c (acts ++ [.destroyed c]) .destroyed

-- What must have happened before.
def Follows (before : List Act) : Act → Prop
  | .established _ => True
  | .handled c => .established c ∈ before
  | .removed c erased => erased = some c ∧ .established c ∈ before
  | .destroyed c => .established c ∈ before ∧ .removed c (some c) ∈ before

namespace Lived
variable {c : Nat} {acts before : List Act} {act : Act} {stage : Stage}

theorem count_established (lived : Lived c acts stage) :
    acts.count (.established c) = if stage = .waiting then 0 else 1 := by
  induction lived with
  | accepted => rfl
  | established _ ih => simp [List.count_append,ih]
  | handled _ _ ih => simp [List.count_append,ih]
  | closing _ ih => simp [ih]
  | removed _ ih => simp [List.count_append,ih]
  | destroyed _ ih => simp [List.count_append,ih]

theorem count_removed (lived : Lived c acts stage) :
    acts.count (.removed c (some c)) = if stage.listed then 0 else 1 := by
  induction lived with
  | accepted => rfl
  | established _ ih => simp [List.count_append,ih,Stage.listed]
  | handled _ _ ih => simp [List.count_append,ih]
  | closing _ ih => simp [ih,Stage.listed]
  | removed _ ih => simp [List.count_append,ih,Stage.listed]
  | destroyed _ ih => simp [List.count_append,ih,Stage.listed]

theorem count_destroyed (lived : Lived c acts stage) :
    acts.count (.destroyed c) = if stage = .destroyed then 1 else 0 := by
  induction lived with
  | accepted => rfl
  | established _ ih => simp [List.count_append,ih]
  | handled _ _ ih => simp [List.count_append,ih]
  | closing _ ih => simp [ih]
  | removed _ ih => simp [List.count_append,ih]
  | destroyed _ ih => simp [List.count_append,ih]

theorem established_mem (lived : Lived c acts stage) (past : stage ≠ .waiting) : .established c ∈ acts := by
  have counted := lived.count_established
  rw [if_neg past] at counted
  exact List.count_pos_iff.mp (by omega)

theorem removed_mem (lived : Lived c acts stage) (unlisted : stage.listed = false) : .removed c (some c) ∈ acts := by
  have counted := lived.count_removed
  rw [unlisted] at counted
  exact List.count_pos_iff.mp (by rw [counted]; decide)

theorem follows_last {last : Act} (found : before ++ [act] <+: acts ++ [last])
    (earlier : before ++ [act] <+: acts → Follows before act) (now : Follows acts last) : Follows before act := by
  rcases List.prefix_concat_iff.mp found with same | inside
  · obtain ⟨rfl,one⟩ := List.append_inj' same rfl
    cases one
    exact now
  · exact earlier inside

theorem follows (lived : Lived c acts stage) (found : before ++ [act] <+: acts) : Follows before act := by
  induction lived with
  | accepted => simp at found
  | established _ ih => exact follows_last found ih trivial
  | handled old past ih => exact follows_last found ih (old.established_mem past)
  | closing _ ih => exact ih found
  | removed old ih => exact follows_last found ih ⟨rfl,old.established_mem (by decide)⟩
  | destroyed old ih => exact follows_last found ih ⟨old.established_mem (by decide),old.removed_mem rfl⟩

end Lived

namespace TcpServer

-- The number in the name of a connection, accepted as the c-th from 0.
def connId (c : Nat) : Int := ((c : Int) + 1).bmod (2 ^ 32)

theorem connId_succ (c : Nat) : (connId c + 1).bmod (2 ^ 32) = connId (c + 1) := by
  unfold connId
  rw [Int.bmod_add_bmod]
  congr 1

theorem connId_small (few : c + 1 < 2 ^ 31) : connId c = ((c + 1 : Nat) : Int) := by
  unfold connId
  rw [Int.bmod_def]
  split <;> omega

theorem repr_injective {m n : Nat} (same : m.repr = n.repr) : m = n := by
  have digits := congrArg String.toList same
  rw [Nat.toList_repr,Nat.toList_repr] at digits
  have back := congrArg (Nat.ofDigitChars 10 · 0) digits
  rwa [Nat.ofDigitChars_toDigits (by decide) (by decide),Nat.ofDigitChars_toDigits (by decide) (by decide)] at back

theorem connName_injective {name : String} {c d : Nat} (few_c : c + 1 < 2 ^ 31) (few_d : d + 1 < 2 ^ 31)
    (same : connName name (connId c) = connName name (connId d)) : c = d := by
  unfold connName at same
  rw [connId_small few_c,connId_small few_d,String.append_right_inj,String.append_right_inj] at same
  exact Nat.succ.inj (repr_injective same)

end TcpServer
end NewMuduo
