import Mathlib.Logic.Function.Basic

namespace QuantumPlatform.Python

-- What a name or an entry of a table refers to.
abbrev Ref := Nat

-- The objects made so far, with what they hold now.
structure Objects (σ : Type) where
  next : Ref := 0
  read : Ref → σ

namespace Objects

variable {σ : Type}

def make (objects : Objects σ) (value : σ) : Objects σ × Ref :=
  (⟨objects.next + 1, Function.update objects.read objects.next value⟩, objects.next)

-- In place: whoever holds the reference sees the change.
def mutate (objects : Objects σ) (ref : Ref) (change : σ → σ) : Objects σ :=
  { objects with read := Function.update objects.read ref (change (objects.read ref)) }

variable (objects : Objects σ) (value : σ) (change : σ → σ) (ref : Ref)

@[simp] theorem read_make_next : (objects.make value).1.read objects.next = value :=
  Function.update_self _ _ _

theorem read_make {ref : Ref} (h : ref < objects.next) :
    (objects.make value).1.read ref = objects.read ref :=
  Function.update_of_ne (Nat.ne_of_lt h) _ _

@[simp] theorem read_mutate_self :
    (objects.mutate ref change).read ref = change (objects.read ref) :=
  Function.update_self _ _ _

theorem read_mutate_of_ne {ref other : Ref} (h : other ≠ ref) :
    (objects.mutate ref change).read other = objects.read other :=
  Function.update_of_ne h _ _

end Objects

end QuantumPlatform.Python
