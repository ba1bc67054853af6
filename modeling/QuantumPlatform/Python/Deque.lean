import Mathlib.Data.List.DropRight

namespace QuantumPlatform.Python

-- `deque(maxlen=...)`, from the left.
structure Deque (α : Type) (maxlen : Nat) where
  items : List α
  bounded : items.length ≤ maxlen

namespace Deque

variable {α : Type} {maxlen : Nat}

def empty : Deque α maxlen := ⟨[], Nat.zero_le _⟩

instance : EmptyCollection (Deque α maxlen) := ⟨empty⟩

-- What is too much leaves on the other side.
def append (deque : Deque α maxlen) (item : α) : Deque α maxlen :=
  let items := deque.items ++ [item]
  if h : maxlen < items.length then
    ⟨items.tail, by
      have hlength : items.length = deque.items.length + 1 := by simp [items]
      have hbounded := deque.bounded
      rw [List.length_tail]
      omega⟩
  else ⟨items, by omega⟩

def appendleft (deque : Deque α maxlen) (item : α) : Deque α maxlen :=
  let items := item :: deque.items
  if h : maxlen < items.length then
    ⟨items.dropLast, by
      have hlength : items.length = deque.items.length + 1 := by simp [items]
      have hbounded := deque.bounded
      rw [List.length_dropLast]
      omega⟩
  else ⟨items, by omega⟩

@[simp] theorem items_empty : (∅ : Deque α maxlen).items = [] := rfl

theorem items_append_eq (deque : Deque α maxlen) (item : α) :
    (deque.append item).items =
      if maxlen < deque.items.length + 1 then (deque.items ++ [item]).tail
      else deque.items ++ [item] := by
  have hlength : (deque.items ++ [item]).length = deque.items.length + 1 := by simp
  unfold append
  by_cases h : maxlen < deque.items.length + 1
  · rw [dif_pos (hlength ▸ h), if_pos h]
  · rw [dif_neg (hlength ▸ h), if_neg h]

-- A deque of the last items of a series is one of its last items after the next.
theorem items_append {deque : Deque α maxlen} {items : List α}
    (h : deque.items = items.rtake maxlen) (item : α) :
    (deque.append item).items = (items ++ [item]).rtake maxlen := by
  have hlength : deque.items.length = items.length - (items.length - maxlen) := by
    rw [h, List.rtake, List.length_drop]
  have hnext : (items ++ [item]).length = items.length + 1 := by simp
  rw [items_append_eq, List.rtake, hnext]
  by_cases hfull : maxlen < deque.items.length + 1
  · have hdrop : items.length + 1 - maxlen = items.length - maxlen + 1 := by omega
    rw [if_pos hfull, hdrop, ← List.drop_drop, List.drop_one,
      List.drop_append_of_le_length (Nat.sub_le _ _), h, List.rtake]
  · have hdrop : items.length + 1 - maxlen = 0 := by omega
    have hall : items.length - maxlen = 0 := by omega
    rw [if_neg hfull, hdrop, List.drop_zero, h, List.rtake, hall, List.drop_zero]

-- A deque of the last items of a series, the newest first, is one after the next item too.
theorem items_appendleft {deque : Deque α maxlen} {items : List α}
    (h : deque.items = items.reverse.take maxlen) (item : α) :
    (deque.appendleft item).items = (items ++ [item]).reverse.take maxlen := by
  have hlength : (item :: deque.items).length = deque.items.length + 1 := by simp
  have hbounded := deque.bounded
  have hall : (items ++ [item]).reverse = item :: items.reverse := by simp
  have htake : item :: deque.items = (item :: items.reverse).take (maxlen + 1) := by
    rw [h, List.take_succ_cons]
  unfold appendleft
  rw [hall]
  by_cases hfull : maxlen < (item :: deque.items).length
  · have hone : (item :: deque.items).length - 1 = maxlen := by omega
    rw [dif_pos hfull]
    simp only
    rw [List.dropLast_eq_take, hone, htake, List.take_take, Nat.min_eq_left (Nat.le_succ maxlen)]
  · have hshort : (items.reverse.take maxlen).length < maxlen := by
      rw [← h]
      omega
    have hsmall : items.length < maxlen := by
      simp only [List.length_take, List.length_reverse] at hshort
      omega
    rw [dif_neg hfull]
    simp only
    rw [htake, List.take_of_length_le (by simp; omega), List.take_of_length_le (by simp; omega)]

end Deque

end QuantumPlatform.Python
