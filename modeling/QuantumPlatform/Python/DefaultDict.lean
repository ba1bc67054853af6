import QuantumPlatform.Python.Dict

namespace QuantumPlatform.Python

variable {κ α : Type} [DecidableEq κ]

namespace Dict

-- `defaultdict[key]`: a missing key is stored with the default before it is read.
def touch (dict : Dict κ α) (key : κ) (fallback : α) : Dict κ α :=
  match dict.get? key with
  | some _ => dict
  | none => dict.set key fallback

@[simp] theorem get_touch (dict : Dict κ α) (key other : κ) (fallback : α) :
    (dict.touch key fallback).get other fallback = dict.get other fallback := by
  unfold touch
  cases hget : dict.get? key with
  | some value => rfl
  | none =>
      by_cases hother : other = key
      · subst hother
        simp [get, hget]
      · exact get_set_of_ne dict key other fallback fallback hother

theorem get_touch_set (dict : Dict κ α) (key other : κ) (fallback value : α) :
    ((dict.touch key fallback).set key value).get other fallback =
      if other = key then value else dict.get other fallback := by
  by_cases hother : other = key
  · subst hother
    rw [if_pos rfl, get_set_self]
  · rw [if_neg hother, get_set_of_ne _ _ _ _ _ hother, get_touch]

end Dict

end QuantumPlatform.Python
