import Mathlib.Data.Nat.Choose.Basic

namespace QuantumPlatform.Process

-- The number of nodes of the tree in which a node with `left` and `right`
-- tokens has one child for each kind of token it can still spend.
def forkTree : Nat → Nat → Nat
  | 0, 0 => 1
  | 0, right + 1 => 1 + forkTree 0 right
  | left + 1, 0 => 1 + forkTree left 0
  | left + 1, right + 1 => 1 + forkTree left (right + 1) + forkTree (left + 1) right
termination_by left right => left + right

-- The subtree below the child that spent a left token, if there is one.
def forkLeft : Nat → Nat → Nat
  | 0, _ => 0
  | left + 1, right => forkTree left right

def forkRight : Nat → Nat → Nat
  | _, 0 => 0
  | left, right + 1 => forkTree left right

theorem forkTree_eq (left right : Nat) :
    forkTree left right = 1 + forkLeft left right + forkRight left right := by
  cases left with
  | zero => cases right <;> simp [forkTree, forkLeft, forkRight]
  | succ left => cases right <;> simp [forkTree, forkLeft, forkRight]

-- Pascal's rule.
theorem forkTree_add_one (left right : Nat) :
    forkTree left right + 1 = (left + right + 2).choose (left + 1) := by
  induction left, right using forkTree.induct with
  | case1 => simp [forkTree]
  | case2 right ih =>
      rw [forkTree]
      simp only [Nat.zero_add, Nat.choose_one_right] at ih ⊢
      omega
  | case3 left ih =>
      rw [forkTree, Nat.choose_symm_of_eq_add (by omega : left + 1 + 0 + 2 = left + 1 + 1 + 1)]
      rw [Nat.choose_symm_of_eq_add (by omega : left + 0 + 2 = left + 1 + 1)] at ih
      simp only [Nat.choose_one_right] at ih ⊢
      omega
  | case4 left right ihleft ihright =>
      have hsplit : (left + 1 + (right + 1) + 2).choose (left + 1 + 1) =
          (left + 1 + right + 2).choose (left + 1) + (left + 1 + right + 2).choose (left + 1 + 1) :=
        Nat.choose_succ_succ _ _
      have hsame : left + (right + 1) + 2 = left + 1 + right + 2 := by omega
      rw [hsame] at ihleft
      rw [forkTree, hsplit]
      omega

end QuantumPlatform.Process
