import Mathlib.Data.List.Forall2
import Mathlib.Logic.Function.Basic

namespace QuantumPlatform.Process

variable {κ ω σ ε : Type} [DecidableEq κ] [DecidableEq ω]

-- A table with one value for each key and each window of time.
abbrev WindowTable (κ ω σ : Type) : Type := κ → ω → σ

namespace WindowTable

def assign (table : WindowTable κ ω σ) (key : κ) (window : ω) (value : σ) : WindowTable κ ω σ :=
  fun otherKey otherWindow =>
    if otherKey = key ∧ otherWindow = window then value else table otherKey otherWindow

@[simp] theorem assign_self (table : WindowTable κ ω σ) (key : κ) (window : ω) (value : σ) :
    table.assign key window value key window = value := by
  simp [assign]

theorem assign_of_ne (table : WindowTable κ ω σ) {key otherKey : κ} {window otherWindow : ω}
    (value : σ) (hne : ¬(otherKey = key ∧ otherWindow = window)) :
    table.assign key window value otherKey otherWindow = table otherKey otherWindow := by
  simp [assign, hne]

-- The items of one key and one window, in order.
def among (keyOf : ε → κ) (windowOf : ε → ω) (key : κ) (window : ω) (items : List ε) : List ε :=
  items.filter fun item => decide (keyOf item = key ∧ windowOf item = window)

section among

variable (keyOf : ε → κ) (windowOf : ε → ω)

@[simp] theorem among_nil (key : κ) (window : ω) : among keyOf windowOf key window [] = [] := rfl

theorem among_concat (key : κ) (window : ω) (items : List ε) (item : ε) :
    among keyOf windowOf key window (items ++ [item]) =
      if keyOf item = key ∧ windowOf item = window then
        among keyOf windowOf key window items ++ [item]
      else among keyOf windowOf key window items := by
  simp only [among, List.filter_append, List.filter_cons, List.filter_nil]
  by_cases h : keyOf item = key ∧ windowOf item = window
  · simp [h]
  · simp [h]

@[simp] theorem among_concat_self (items : List ε) (item : ε) :
    among keyOf windowOf (keyOf item) (windowOf item) (items ++ [item]) =
      among keyOf windowOf (keyOf item) (windowOf item) items ++ [item] := by
  simp [among_concat]

theorem among_concat_of_ne {key : κ} {window : ω} {item : ε} (items : List ε)
    (hne : ¬(keyOf item = key ∧ windowOf item = window)) :
    among keyOf windowOf key window (items ++ [item]) =
      among keyOf windowOf key window items := by
  simp [among_concat, hne]

theorem mem_among {key : κ} {window : ω} {items : List ε} {item : ε} :
    item ∈ among keyOf windowOf key window items ↔
      item ∈ items ∧ keyOf item = key ∧ windowOf item = window := by
  simp [among]

-- Items that agree in their keys and windows one by one are found at the same places.
theorem among_forall₂ {R : ε → ε → Prop} {first second : List ε}
    (hkeeps : ∀ item other, R item other →
      keyOf other = keyOf item ∧ windowOf other = windowOf item)
    (h : List.Forall₂ R first second) (key : κ) (window : ω) :
    List.Forall₂ R (among keyOf windowOf key window first)
      (among keyOf windowOf key window second) := by
  unfold among
  induction h with
  | nil => exact .nil
  | @cons item other _ _ hitem _ ih =>
      obtain ⟨hkey, hwindow⟩ := hkeeps item other hitem
      simp only [List.filter_cons, hkey, hwindow]
      split_ifs
      · exact .cons hitem ih
      · exact ih

end among

section exact

variable (keyOf : ε → κ) (windowOf : ε → ω) (fold : σ → ε → σ) (initial : σ)

-- Every entry is the fold over the items of its key and window, and over nothing else.
def Exact (table : WindowTable κ ω σ) (items : List ε) : Prop :=
  ∀ key window, table key window = (among keyOf windowOf key window items).foldl fold initial

variable {keyOf windowOf fold initial}

theorem exact_nil : Exact keyOf windowOf fold initial (fun _ _ => initial) [] :=
  fun _ _ => rfl

-- Whatever value is written for an item, the other entries stay exact.
theorem Exact.assign_iff {table : WindowTable κ ω σ} {items : List ε}
    (h : Exact keyOf windowOf fold initial table items) (item : ε) (value : σ) :
    Exact keyOf windowOf fold initial (table.assign (keyOf item) (windowOf item) value)
        (items ++ [item]) ↔
      value = (among keyOf windowOf (keyOf item) (windowOf item) (items ++ [item])).foldl
        fold initial := by
  constructor
  · intro hexact
    rw [← hexact, assign_self]
  · intro hvalue key window
    by_cases hown : key = keyOf item ∧ window = windowOf item
    · obtain ⟨rfl, rfl⟩ := hown
      rw [assign_self, hvalue]
    · have hother : ¬(keyOf item = key ∧ windowOf item = window) :=
        fun he => hown ⟨he.1.symm, he.2.symm⟩
      rw [assign_of_ne table value hown, among_concat_of_ne keyOf windowOf items hother, h]

-- An update in place, in the item's own window, keeps the table exact.
theorem Exact.update {table : WindowTable κ ω σ} {items : List ε}
    (h : Exact keyOf windowOf fold initial table items) (item : ε) :
    Exact keyOf windowOf fold initial
      (table.assign (keyOf item) (windowOf item)
        (fold (table (keyOf item) (windowOf item)) item)) (items ++ [item]) := by
  rw [h.assign_iff, among_concat_self, List.foldl_concat, h]

end exact

end WindowTable

end QuantumPlatform.Process
