import Mathlib.Data.List.Basic
import Mathlib.Order.Basic
import Mathlib.Data.Nat.Init

namespace QuantumPlatform.Parsing

-- Expressions with one unary operator, which binds tightest, and binary operators that
-- associate to the left.
inductive Token (α Op : Type) where
  | atom (value : α)
  | unary
  | binary (op : Op)
  | opening
  | closing

inductive Tree (α Op : Type) where
  | atom (value : α)
  | unary (operand : Tree α Op)
  | binary (op : Op) (left right : Tree α Op)

variable {α Op : Type} (level : Op → ℕ)

-- How a tree is written: `level` orders the binary operators, the loosest first, and
-- `top` is the level of the operands.
inductive Derives (top : ℕ) : ℕ → Tree α Op → List (Token α Op) → Prop where
  | atom (value : α) : Derives top top (.atom value) [.atom value]
  | group {tree : Tree α Op} {tokens : List (Token α Op)} (inner : Derives top 0 tree tokens) :
      Derives top top tree (.opening :: (tokens ++ [.closing]))
  | unary {tree : Tree α Op} {tokens : List (Token α Op)} (operand : Derives top top tree tokens) :
      Derives top top (.unary tree) (.unary :: tokens)
  | binary {left right : Tree α Op} {before after : List (Token α Op)} (op : Op)
      (first : Derives top (level op) left before)
      (second : Derives top (level op + 1) right after) :
      Derives top (level op) (.binary op left right) (before ++ .binary op :: after)
  | tighter {k : ℕ} {tree : Tree α Op} {tokens : List (Token α Op)}
      (h : Derives top (k + 1) tree tokens) : Derives top k tree tokens

theorem Derives.level_le {top k : ℕ} {tree : Tree α Op} {tokens : List (Token α Op)}
    (h : Derives level top k tree tokens) : k ≤ top := by
  induction h with
  | atom => exact Nat.le_refl _
  | group => exact Nat.le_refl _
  | unary => exact Nat.le_refl _
  | binary op _ _ _ ih => omega
  | tighter _ ih => omega

theorem Derives.loosen {top k j : ℕ} {tree : Tree α Op} {tokens : List (Token α Op)}
    (h : Derives level top k tree tokens) (hle : j ≤ k) : Derives level top j tree tokens := by
  induction k, hle using Nat.le_induction with
  | base => exact h
  | succ k _ ih => exact ih h.tighter

section parser

-- What waits for the operand that is being read.
inductive Frame (α Op : Type) where
  | unary
  | binary (left : Tree α Op) (op : Op)
  | opening

-- An operand takes the unary operators before it.
def settle : List (Frame α Op) → Tree α Op → List (Frame α Op) × Tree α Op
  | .unary :: stack, tree => settle stack (.unary tree)
  | stack, tree => (stack, tree)

-- The operators from level `k` on take what has been read as their right operand.
def collapse (k : ℕ) : List (Frame α Op) → Tree α Op → List (Frame α Op) × Tree α Op
  | .binary left op :: stack, tree =>
      if k ≤ level op then collapse k stack (.binary op left tree)
      else (.binary left op :: stack, tree)
  | stack, tree => (stack, tree)

-- Without a tree an operand is expected, with one an operator or the end.
def parseFrom : List (Token α Op) → List (Frame α Op) → Option (Tree α Op) → Option (Tree α Op)
  | .atom value :: rest, stack, none =>
      let settled := settle stack (.atom value)
      parseFrom rest settled.1 (some settled.2)
  | .unary :: rest, stack, none => parseFrom rest (.unary :: stack) none
  | .opening :: rest, stack, none => parseFrom rest (.opening :: stack) none
  | .binary op :: rest, stack, some tree =>
      let collapsed := collapse level (level op) stack tree
      parseFrom rest (.binary collapsed.2 op :: collapsed.1) none
  | .closing :: rest, stack, some tree =>
      match collapse level 0 stack tree with
      | (.opening :: stack, tree) =>
          let settled := settle stack tree
          parseFrom rest settled.1 (some settled.2)
      | _ => none
  | [], stack, some tree =>
      match collapse level 0 stack tree with
      | ([], tree) => some tree
      | _ => none
  | _, _, _ => none

def parse (tokens : List (Token α Op)) : Option (Tree α Op) := parseFrom level tokens [] none

end parser

section completeness

variable {level} {top k : ℕ} {tree : Tree α Op} {stack : List (Frame α Op)}

-- The frame on top of the stack leaves an expression of level `k` alone.
def Ready (level : Op → ℕ) (k : ℕ) : List (Frame α Op) → Prop
  | .unary :: _ => False
  | .binary _ op :: _ => level op < k
  | _ => True

theorem Ready.settle (h : Ready level k stack) (tree : Tree α Op) :
    Parsing.settle stack tree = (stack, tree) := by
  cases stack with
  | nil => rfl
  | cons frame rest =>
      cases frame with
      | unary => exact h.elim
      | binary left op => rfl
      | opening => rfl

theorem Ready.collapse (h : Ready level k stack) (tree : Tree α Op) :
    Parsing.collapse level k stack tree = (stack, tree) := by
  cases stack with
  | nil => rfl
  | cons frame rest =>
      cases frame with
      | unary => exact h.elim
      | binary left op =>
          have hlt : level op < k := h
          rw [Parsing.collapse, if_neg (by omega)]
      | opening => rfl

theorem Ready.succ (h : Ready level k stack) : Ready level (k + 1) stack := by
  cases stack with
  | nil => trivial
  | cons frame rest =>
      cases frame with
      | unary => exact h.elim
      | binary left op => exact Nat.lt_succ_of_lt h
      | opening => trivial

-- Frames that are still open after an expression, which any looser operator will close.
def Pending (level : Op → ℕ) (k : ℕ) (pending : List (Frame α Op)) (last tree : Tree α Op) : Prop :=
  ∀ j ≤ k, ∀ stack, collapse level j (pending ++ stack) last = collapse level j stack tree

theorem Pending.nil : Pending level k [] tree tree := fun _ _ _ => rfl

theorem Pending.mono {pending : List (Frame α Op)} {last : Tree α Op}
    (h : Pending level (k + 1) pending last tree) : Pending level k pending last tree :=
  fun j hj => h j (by omega)

theorem Pending.binary {pending : List (Frame α Op)} {last left right : Tree α Op} {op : Op}
    (h : Pending level (level op + 1) pending last right) :
    Pending level (level op) (pending ++ [.binary left op]) last (.binary op left right) := by
  intro j hj stack
  rw [List.append_assoc, h j (by omega), List.singleton_append, collapse, if_pos hj]

-- What the parser has done once an expression is read. The operands of the tightest level
-- have taken their unary operators, the others leave their own operators open.
def Reads (level : Op → ℕ) (top k : ℕ) (tree : Tree α Op) (tokens : List (Token α Op)) : Prop :=
  (k = top → ∀ stack rest, parseFrom level (tokens ++ rest) stack none =
    parseFrom level rest (settle stack tree).1 (some (settle stack tree).2)) ∧
  ∀ stack rest, Ready level k stack → ∃ pending last, Pending level k pending last tree ∧
    parseFrom level (tokens ++ rest) stack none =
      parseFrom level rest (pending ++ stack) (some last)

variable {tokens : List (Token α Op)}

theorem Reads.of_top (h : ∀ stack rest, parseFrom level (tokens ++ rest) stack none =
      parseFrom level rest (settle stack tree).1 (some (settle stack tree).2)) :
    Reads level top top tree tokens := by
  refine ⟨fun _ => h, fun stack rest hready => ⟨[], tree, Pending.nil, ?_⟩⟩
  rw [h, hready.settle]
  rfl

theorem Reads.group (h : Reads level top 0 tree tokens) :
    Reads level top top tree (.opening :: (tokens ++ [.closing])) := by
  refine Reads.of_top fun stack rest => ?_
  have hready : Ready level 0 (.opening :: stack) := trivial
  obtain ⟨pending, last, hpending, hparse⟩ := h.2 (.opening :: stack) (.closing :: rest) hready
  have hcollapse := hpending 0 (Nat.le_refl 0) (.opening :: stack)
  rw [hready.collapse] at hcollapse
  rw [List.cons_append, List.append_assoc, List.singleton_append, parseFrom, hparse, parseFrom,
    hcollapse]

theorem Reads.unary (h : Reads level top top tree tokens) :
    Reads level top top (.unary tree) (.unary :: tokens) := by
  refine Reads.of_top fun stack rest => ?_
  rw [List.cons_append, parseFrom, h.1 rfl]
  rfl

theorem Reads.binary {left right : Tree α Op} {before after : List (Token α Op)} {op : Op}
    (hlt : level op < top) (hfirst : Reads level top (level op) left before)
    (hsecond : Reads level top (level op + 1) right after) :
    Reads level top (level op) (.binary op left right) (before ++ .binary op :: after) := by
  refine ⟨fun h => absurd h (by omega), fun stack rest hready => ?_⟩
  obtain ⟨pending, last, hpending, hparse⟩ := hfirst.2 stack (.binary op :: (after ++ rest)) hready
  have hcollapse := hpending (level op) (Nat.le_refl _) stack
  rw [hready.collapse] at hcollapse
  have hnext : Ready level (level op + 1) (.binary left op :: stack) := Nat.lt_succ_self _
  obtain ⟨later, final, hlater, hrest⟩ := hsecond.2 (.binary left op :: stack) rest hnext
  refine ⟨later ++ [.binary left op], final, hlater.binary, ?_⟩
  rw [List.append_assoc, List.cons_append, hparse, parseFrom, hcollapse, hrest, List.append_assoc,
    List.singleton_append]

theorem Reads.tighter (hlt : k < top) (h : Reads level top (k + 1) tree tokens) :
    Reads level top k tree tokens := by
  refine ⟨fun heq => absurd heq (by omega), fun stack rest hready => ?_⟩
  obtain ⟨pending, last, hpending, hparse⟩ := h.2 stack rest hready.succ
  exact ⟨pending, last, hpending.mono, hparse⟩

theorem Derives.reads (h : Derives level top k tree tokens) : Reads level top k tree tokens := by
  induction h with
  | atom value => exact Reads.of_top fun _ _ => rfl
  | group _ ih => exact ih.group
  | unary _ ih => exact ih.unary
  | binary op _ hsecond ihfirst ihsecond => exact Reads.binary hsecond.level_le ihfirst ihsecond
  | tighter hinner ih => exact ih.tighter hinner.level_le

-- The parser finds the tree of everything that can be written.
theorem Derives.parse (h : Derives level top 0 tree tokens) :
    Parsing.parse level tokens = some tree := by
  obtain ⟨pending, last, hpending, hparse⟩ := h.reads.2 [] [] trivial
  have hcollapse := hpending 0 (Nat.le_refl 0) []
  rw [List.append_nil] at hcollapse hparse
  rw [Parsing.parse, hparse, List.append_nil, parseFrom, hcollapse]
  rfl

end completeness

end QuantumPlatform.Parsing
