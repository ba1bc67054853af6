import Mathlib.Algebra.BigOperators.Fin
import Mathlib.Algebra.BigOperators.Pi
import Mathlib.Data.Fintype.Pi
import Mathlib.Data.Nat.Bitwise
import Mathlib.Tactic.Ring

namespace QuantumPlatform.Quantum

-- The 2 of a gate is the same numeral in every definition.
scoped instance atLeastTwo_two : Nat.AtLeastTwo 2 := ⟨le_rfl⟩

-- The computational basis of a register: one bit for each qubit.
abbrev Basis (n : ℕ) : Type := Fin n → Bool

namespace Basis

variable {n : ℕ} (y : Basis n)

def bit (q : ℕ) : Bool := if h : q < n then y ⟨q, h⟩ else false

def set (q : ℕ) (b : Bool) : Basis n := fun i => if i.val = q then b else y i

def flip (q : ℕ) : Basis n := y.set q (!y.bit q)

section bits

variable {y}

theorem bit_of_lt {q : ℕ} (hq : q < n) : y.bit q = y ⟨q, hq⟩ := by
  simp [bit, hq]

theorem ext_bit {x : Basis n} (h : ∀ q < n, x.bit q = y.bit q) : x = y := by
  funext i
  have hi := h i i.isLt
  rwa [bit_of_lt i.isLt, bit_of_lt i.isLt] at hi

theorem bit_set_self {q : ℕ} (hq : q < n) (b : Bool) : (y.set q b).bit q = b := by
  simp [bit, set, hq]

theorem bit_set_of_ne {q r : ℕ} (hne : r ≠ q) (b : Bool) : (y.set q b).bit r = y.bit r := by
  simp [bit, set, hne]

theorem set_bit (q : ℕ) : y.set q (y.bit q) = y := by
  funext i
  by_cases hi : i.val = q
  · subst hi
    simp [set, bit]
  · simp [set, hi]

@[simp] theorem set_set (q : ℕ) (b c : Bool) : (y.set q b).set q c = y.set q c := by
  funext i
  by_cases hi : i.val = q
  · simp [set, hi]
  · simp [set, hi]

theorem set_comm {q r : ℕ} (hne : q ≠ r) (b c : Bool) :
    (y.set q b).set r c = (y.set r c).set q b := by
  funext i
  by_cases hq : i.val = q
  · have hr : ¬i.val = r := fun h => hne (hq.symm.trans h)
    simp [set, hq, hne]
  · simp [set, hq]

theorem bit_flip_self {q : ℕ} (hq : q < n) : (y.flip q).bit q = !y.bit q :=
  bit_set_self hq _

theorem bit_flip_of_ne {q r : ℕ} (hne : r ≠ q) : (y.flip q).bit r = y.bit r :=
  bit_set_of_ne hne _

theorem flip_flip {q : ℕ} (hq : q < n) : (y.flip q).flip q = y := by
  unfold flip
  rw [bit_set_self hq, set_set, Bool.not_not, set_bit]

end bits

section sums

variable {M : Type} [AddCommMonoid M]

theorem sum_flip {q : ℕ} (hq : q < n) (f : Basis n → M) : ∑ y : Basis n, f (y.flip q) = ∑ y, f y :=
  Fintype.sum_bijective _ (Function.Involutive.bijective fun _ => flip_flip hq) _ _ fun _ => rfl

-- Summing over both values of one bit counts everything twice.
theorem sum_set {q : ℕ} (hq : q < n) (f : Basis n → M) :
    ∑ y : Basis n, ∑ b, f (y.set q b) = 2 • ∑ y, f y := by
  have hpair : ∀ y : Basis n, ∑ b, f (y.set q b) = f y + f (y.flip q) := by
    intro y
    have hself := set_bit (y := y) q
    unfold flip
    cases hb : y.bit q with
    | false =>
        rw [hb] at hself
        simp [hself, add_comm]
    | true =>
        rw [hb] at hself
        simp [hself]
  simp only [hpair, Finset.sum_add_distrib, sum_flip hq, two_nsmul]

end sums

section values

variable {y}

-- The number that the first bits spell, the first of them the least significant.
def low (t : ℕ) (y : Basis n) : ℕ := ∑ q ∈ Finset.range t, (y.bit q).toNat * 2 ^ q

def value (y : Basis n) : ℕ := y.low n

def ofNat (n : ℕ) (x : ℕ) : Basis n := fun i => x.testBit i

theorem low_succ (t : ℕ) : y.low (t + 1) = y.low t + (y.bit t).toNat * 2 ^ t :=
  Finset.sum_range_succ _ _

theorem low_lt (t : ℕ) : y.low t < 2 ^ t := by
  induction t with
  | zero => simp [low]
  | succ t ih =>
      have hbit := Bool.toNat_le (y.bit t)
      have hmul : (y.bit t).toNat * 2 ^ t ≤ 1 * 2 ^ t := Nat.mul_le_mul_right _ hbit
      rw [low_succ, pow_succ]
      omega

-- The later bits add a multiple.
theorem low_add {s t : ℕ} (hst : s ≤ t) : ∃ m, y.low t = y.low s + 2 ^ s * m := by
  induction t, hst using Nat.le_induction with
  | base => exact ⟨0, by simp⟩
  | succ t hst ih =>
      obtain ⟨m, hm⟩ := ih
      refine ⟨m + 2 ^ (t - s) * (y.bit t).toNat, ?_⟩
      have hpow : 2 ^ t = 2 ^ s * 2 ^ (t - s) := by rw [← pow_add, Nat.add_sub_cancel' hst]
      rw [low_succ, hm, hpow]
      ring

theorem bit_ofNat {x q : ℕ} (hq : q < n) : (ofNat n x).bit q = x.testBit q :=
  bit_of_lt hq

theorem low_ofNat {t x : ℕ} (ht : t ≤ n) : (ofNat n x).low t = x % 2 ^ t := by
  induction t with
  | zero => simp [low, Nat.mod_one]
  | succ t ih =>
      rw [low_succ, ih (by omega), bit_ofNat (by omega), Nat.mod_pow_succ, Nat.toNat_testBit, Nat.mul_comm]

theorem value_ofNat {x : ℕ} (hx : x < 2 ^ n) : (ofNat n x).value = x := by
  rw [value, low_ofNat (le_refl n), Nat.mod_eq_of_lt hx]

theorem testBit_low {t q : ℕ} (hq : q < t) : (y.low t).testBit q = y.bit q := by
  induction t with
  | zero => omega
  | succ t ih =>
      rw [low_succ, Nat.add_comm]
      cases hb : y.bit t with
      | false =>
          by_cases hlast : q = t
          · subst hlast
            simp [hb, Nat.testBit_lt_two_pow (low_lt q)]
          · simpa using ih (by omega)
      | true =>
          simp only [Bool.toNat_true, Nat.one_mul]
          by_cases hlast : q = t
          · subst hlast
            rw [Nat.testBit_two_pow_add_eq, Nat.testBit_lt_two_pow (low_lt q), hb]
            rfl
          · rw [Nat.testBit_two_pow_add_gt (by omega), ih (by omega)]

theorem ofNat_value : ofNat n y.value = y :=
  ext_bit fun q hq => by rw [bit_ofNat hq, value, testBit_low hq]

theorem value_lt : y.value < 2 ^ n := low_lt n

theorem value_injective {x : Basis n} (h : x.value = y.value) : x = y := by
  rw [← ofNat_value (y := x), h, ofNat_value]

-- The basis states are the numbers below 2 ^ n.
theorem sum_ofNat {M : Type} [AddCommMonoid M] (f : Basis n → M) :
    ∑ y, f y = ∑ k ∈ Finset.range (2 ^ n), f (ofNat n k) :=
  Finset.sum_nbij' value (ofNat n) (fun _ _ => Finset.mem_range.mpr value_lt)
    (fun _ _ => Finset.mem_univ _) (fun _ _ => ofNat_value)
    (fun _ hk => value_ofNat (Finset.mem_range.mp hk)) fun _ _ => by rw [ofNat_value]

-- The states with the last bit set, counted by the bits before it.
theorem sum_last {M : Type} [AddCommMonoid M] {t : ℕ} (f : ℕ → M) :
    (∑ x : Basis (t + 1), if x.bit t then f (x.low t) else 0) =
      ∑ k ∈ Finset.range (2 ^ t), f k := by
  have hhigh : ∀ k ∈ Finset.range (2 ^ t), (if (ofNat (t + 1) (2 ^ t + k)).bit t then
      f ((ofNat (t + 1) (2 ^ t + k)).low t) else 0) = f k := by
    intro k hk
    have hk := Finset.mem_range.mp hk
    rw [bit_ofNat (by omega), low_ofNat (by omega), Nat.testBit_two_pow_add_eq,
      Nat.testBit_lt_two_pow hk, Nat.add_mod_left, Nat.mod_eq_of_lt hk]
    simp
  have hlow : ∀ k ∈ Finset.range (2 ^ t), (if (ofNat (t + 1) k).bit t then
      f ((ofNat (t + 1) k).low t) else 0) = 0 := by
    intro k hk
    rw [bit_ofNat (by omega), Nat.testBit_lt_two_pow (Finset.mem_range.mp hk)]
    simp
  rw [sum_ofNat, pow_succ, Nat.mul_two, Finset.sum_range_add, Finset.sum_eq_zero hlow, zero_add]
  exact Finset.sum_congr rfl hhigh

theorem card : Fintype.card (Basis n) = 2 ^ n := by
  simp [Basis]

end values

end Basis

end QuantumPlatform.Quantum
