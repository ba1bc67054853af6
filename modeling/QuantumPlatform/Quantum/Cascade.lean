import QuantumPlatform.Quantum.States
import Mathlib.Algebra.BigOperators.Intervals

namespace QuantumPlatform.Quantum

variable {n : ℕ}

namespace Basis

-- The parity of the bits from `q` on.
def upperParity (x : Basis n) (q : ℕ) : Bool :=
  decide ((∑ r ∈ Finset.Ico q n, (x.bit r).toNat) % 2 = 1)

-- The parities replace the bits from `k` on; the bits below are as they were.
def cascade (k : ℕ) (x : Basis n) : Basis n := fun i =>
  if k ≤ i.val then x.upperParity i else x i

variable {x : Basis n}

theorem upperParity_end : x.upperParity n = false := by
  simp [upperParity]

theorem upperParity_of_lt {q : ℕ} (hq : q < n) :
    x.upperParity q = (x.bit q ^^ x.upperParity (q + 1)) := by
  unfold upperParity
  rw [Finset.sum_eq_sum_Ico_succ_bot hq, Nat.add_mod]
  cases x.bit q with
  | false => simp
  | true =>
      rcases Nat.mod_two_eq_zero_or_one (∑ r ∈ Finset.Ico (q + 1) n, (x.bit r).toNat) with h | h
      · simp [h]
      · simp [h]

theorem bit_cascade {k q : ℕ} (hq : q < n) :
    (cascade k x).bit q = if k ≤ q then x.upperParity q else x.bit q := by
  rw [bit_of_lt hq, cascade, bit_of_lt hq]

-- The last bit is its own parity.
theorem cascade_last (hn : 1 ≤ n) : cascade (n - 1) x = x := by
  refine ext_bit fun q hq => ?_
  rw [bit_cascade hq]
  by_cases hlast : n - 1 ≤ q
  · have hend : q + 1 = n := by omega
    rw [if_pos hlast, upperParity_of_lt hq, hend, upperParity_end, Bool.xor_false]
  · rw [if_neg hlast]

-- One step of the cascade adds the parity above to one more bit.
theorem cascade_step {k : ℕ} (hk : k + 1 < n) :
    (if (cascade (k + 1) x).bit (k + 1) then (cascade (k + 1) x).flip k else cascade (k + 1) x) =
      cascade k x := by
  have habove : (cascade (k + 1) x).bit (k + 1) = x.upperParity (k + 1) := by
    rw [bit_cascade hk, if_pos (le_refl _)]
  have hbelow : (cascade (k + 1) x).bit k = x.bit k := by
    rw [bit_cascade (by omega), if_neg (by omega)]
  refine ext_bit fun q hq => ?_
  by_cases hself : q = k
  · subst hself
    rw [habove, bit_cascade hq, if_pos (le_refl _), upperParity_of_lt hq]
    cases x.upperParity (q + 1) with
    | false => simp [hbelow]
    | true => simp [bit_flip_self hq, hbelow]
  · have hsame : (cascade (k + 1) x).bit q = (cascade k x).bit q := by
      rw [bit_cascade hq, bit_cascade hq]
      by_cases hle : k ≤ q
      · rw [if_pos hle, if_pos (by omega)]
      · rw [if_neg hle, if_neg (by omega)]
    cases (cascade (k + 1) x).bit (k + 1) with
    | false => simpa using hsame
    | true => simpa [bit_flip_of_ne hself] using hsame

-- Only the bits above the lowest are ever added to another.
theorem cascade_eq_self_iff : cascade 0 x = x ↔ ∀ q, 0 < q → x.bit q = false := by
  have hparity : cascade 0 x = x ↔ ∀ q < n, x.upperParity (q + 1) = false := by
    have hbit : ∀ q < n, ((cascade 0 x).bit q = x.bit q ↔ x.upperParity (q + 1) = false) := by
      intro q hq
      rw [bit_cascade hq, if_pos (Nat.zero_le q), upperParity_of_lt hq]
      cases x.bit q <;> cases x.upperParity (q + 1) <;> simp
    refine ⟨fun h q hq => (hbit q hq).mp (by rw [h]), fun h => ext_bit fun q hq => ?_⟩
    exact (hbit q hq).mpr (h q hq)
  rw [hparity]
  constructor
  · intro h q hpos
    by_cases hq : q < n
    · have hhere := h (q - 1) (by omega)
      rw [Nat.sub_add_cancel hpos, upperParity_of_lt hq, h q hq, Bool.xor_false] at hhere
      exact hhere
    · simp [bit, hq]
  · intro h q _
    have hzero : ∑ r ∈ Finset.Ico (q + 1) n, (x.bit r).toNat = 0 := by
      refine Finset.sum_eq_zero fun r hr => ?_
      have hpos : 0 < r := by
        have hle := (Finset.mem_Ico.mp hr).1
        omega
      rw [h r hpos, Bool.toNat_false]
    simp [upperParity, hzero]

end Basis

end QuantumPlatform.Quantum
