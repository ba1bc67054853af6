import Mathlib.Algebra.Order.Archimedean.Basic
import Mathlib.Algebra.Order.Field.Basic
import Mathlib.Order.Monotone.Basic
import Mathlib.Tactic.Linarith

namespace QuantumPlatform.Process

-- Delays that grow by a factor up to a cap.
structure Backoff (α : Type) where
  initial : α
  factor : α
  cap : α

namespace Backoff

variable {α : Type} [Field α] [LinearOrder α] (backoff : Backoff α)

-- The delay before retry `k + 1`.
def delay : ℕ → α
  | 0 => backoff.initial
  | k + 1 => min (delay k * backoff.factor) backoff.cap

-- When attempt `k` is made, if the attempts themselves take no time.
def instant : ℕ → α
  | 0 => 0
  | k + 1 => instant k + backoff.delay k

-- Some attempt is made between the two.
def Attempts (earliest latest : α) : Prop :=
  ∃ k, earliest ≤ backoff.instant k ∧ backoff.instant k ≤ latest

-- The delays start below the cap and do not shrink.
structure Growing : Prop where
  initial_pos : 0 < backoff.initial
  initial_le_cap : backoff.initial ≤ backoff.cap
  one_le_factor : 1 ≤ backoff.factor

variable {backoff} [IsStrictOrderedRing α]

namespace Growing

theorem initial_le_delay (h : backoff.Growing) (k : ℕ) : backoff.initial ≤ backoff.delay k := by
  induction k with
  | zero => exact le_refl _
  | succ k ih =>
      apply le_min
      · have hpos : 0 ≤ backoff.delay k := h.initial_pos.le.trans ih
        exact ih.trans (le_mul_of_one_le_right hpos h.one_le_factor)
      · exact h.initial_le_cap

theorem delay_pos (h : backoff.Growing) (k : ℕ) : 0 < backoff.delay k :=
  h.initial_pos.trans_le (h.initial_le_delay k)

theorem instant_strictMono (h : backoff.Growing) : StrictMono backoff.instant := by
  apply strictMono_nat_of_lt_succ
  intro k
  exact lt_add_of_pos_right _ (h.delay_pos k)

theorem mul_initial_le_instant (h : backoff.Growing) (k : ℕ) :
    k * backoff.initial ≤ backoff.instant k := by
  induction k with
  | zero => simp [instant]
  | succ k ih =>
      have hdelay := h.initial_le_delay k
      simp only [instant, Nat.cast_succ, add_mul, one_mul]
      linarith

theorem exists_instant_gt [Archimedean α] (h : backoff.Growing) (bound : α) :
    ∃ k, bound < backoff.instant k := by
  obtain ⟨k, hk⟩ := Archimedean.arch bound h.initial_pos
  refine ⟨k + 1, ?_⟩
  have hbelow : k * backoff.initial ≤ backoff.instant k := h.mul_initial_le_instant k
  rw [nsmul_eq_mul] at hk
  exact (hk.trans hbelow).trans_lt (h.instant_strictMono (Nat.lt_succ_self k))

-- Once an attempt comes too late, and those before it came too early, none is in time.
theorem not_attempts (h : backoff.Growing) {earliest latest : α} {k : ℕ}
    (hearly : ∀ j < k, backoff.instant j < earliest) (hlate : latest < backoff.instant k) :
    ¬ backoff.Attempts earliest latest := by
  rintro ⟨j, hafter, hbefore⟩
  by_cases hj : j < k
  · exact absurd hafter (not_le.mpr (hearly j hj))
  · have hle : backoff.instant k ≤ backoff.instant j :=
      h.instant_strictMono.monotone (not_lt.mp hj)
    exact absurd (hle.trans hbefore) (not_le.mpr hlate)

end Growing

end Backoff

end QuantumPlatform.Process
