import QuantumPlatform.Core.Semantics
import Mathlib.Algebra.BigOperators.Field
import Mathlib.Analysis.SpecialFunctions.Complex.Circle

namespace QuantumPlatform.Core

open Quantum

noncomputable section

-- The phase of a fraction of a full turn.
def turn (x : ℝ) : ℂ := phaseFactor (2 * Real.pi * x)

theorem phaseFactor_add (x y : ℝ) : phaseFactor (x + y) = phaseFactor x * phaseFactor y := by
  simp only [phaseFactor, Complex.ofReal_add, add_mul, Complex.exp_add]

theorem turn_add (x y : ℝ) : turn (x + y) = turn x * turn y := by
  rw [turn, mul_add, phaseFactor_add]
  rfl

@[simp] theorem turn_zero : turn 0 = 1 := by
  simp [turn, phaseFactor]

theorem turn_int (k : ℤ) : turn k = 1 := by
  have h := Complex.exp_int_mul_two_pi_mul_I k
  rw [← h, turn, phaseFactor]
  congr 1
  push_cast
  ring

theorem turn_nat (k : ℕ) : turn k = 1 := by
  exact_mod_cast turn_int k

theorem turn_half : turn (1 / 2) = -1 := by
  rw [← Complex.exp_pi_mul_I, turn, phaseFactor]
  congr 1
  push_cast
  ring

theorem turn_sum {ι : Type} (s : Finset ι) (f : ι → ℝ) : turn (∑ i ∈ s, f i) = ∏ i ∈ s, turn (f i) := by
  induction s using Finset.cons_induction with
  | empty => simp
  | cons i s hi ih => rw [Finset.sum_cons, Finset.prod_cons, turn_add, ih]

variable {n : ℕ} {satisfies : String → List String → Basis n → Bool}

section gates

variable {f : ℕ → Bool → ℂ}

theorem run_h (qubit : ℕ) (hq : qubit < n) (rest : List (Gate ℝ)) :
    run satisfies (.h qubit :: rest) (product f) =
      run satisfies rest
        (product (Function.update f qubit fun a => ∑ b, hadamard a b * f qubit b)) := by
  rw [run_cons]
  exact congrArg _ (single_product hadamard hq)

theorem run_hs (m : ℕ) (hm : m ≤ n) :
    run satisfies ((List.range m).map .h) (product f) =
      product fun q => if q < m then fun a => ∑ b, hadamard a b * f q b else f q := by
  induction m with
  | zero => simp
  | succ m ih =>
      rw [List.range_succ, List.map_append, run_append, ih (by omega), List.map_singleton,
        run_h m (by omega)]
      simp only [lt_irrefl, if_false]
      exact product_extend m

-- A run of controlled phases whose controls have definite bits.
theorem run_phases {target : ℕ} (ht : target < n) (angle : ℕ → ℝ) (bits : ℕ → Bool)
    (controls : List ℕ) (hcontrols : ∀ k ∈ controls, k < n ∧ k ≠ target ∧
      ∀ b, b ≠ bits k → f k b = 0) :
    run satisfies (controls.map fun k => .cp (angle k) k target) (product f) =
      product (Function.update f target fun b =>
        (controls.map fun k => if bits k && b then phaseFactor (angle k) else 1).prod *
          f target b) := by
  induction controls generalizing f with
  | nil => simp
  | cons k controls ih =>
      obtain ⟨hk, hne, hdefinite⟩ := hcontrols k (by simp)
      have hgate : (Gate.cp (angle k) k target).denote satisfies (product f) =
          product (Function.update f target fun b =>
            (if bits k && b then phaseFactor (angle k) else 1) * f target b) :=
        controlledPhase_product hk ht hne hdefinite _
      rw [List.map_cons, run_cons, hgate, ih]
      · rw [Function.update_idem, Function.update_self]
        refine congrArg product (congrArg (Function.update f target) (funext fun b => ?_))
        rw [List.map_cons, List.prod_cons]
        ring
      · intro other hmem
        obtain ⟨hother, hotherne, hzero⟩ := hcontrols other (by simp [hmem])
        refine ⟨hother, hotherne, fun b hb => ?_⟩
        rw [Function.update_of_ne hotherne]
        exact hzero b hb

end gates

section phases

theorem prod_map_range {M : Type} [CommMonoid M] (f : ℕ → M) (m : ℕ) :
    ((List.range m).map f).prod = ∏ k ∈ Finset.range m, f k := by
  induction m with
  | zero => rfl
  | succ m ih => rw [List.range_succ, List.map_append, List.prod_append, ih,
      Finset.prod_range_succ, List.map_singleton, List.prod_singleton]

-- The direction of a transform: 1, or -1 for the inverse.
def IsSign (sign : ℝ) : Prop := sign = 1 ∨ sign = -1

theorem IsSign.turn_half {sign : ℝ} (h : IsSign sign) : turn (sign / 2) = -1 := by
  rcases h with rfl | rfl
  · exact Core.turn_half
  · have hsum := turn_add (-1 / 2) (1 / 2)
    rw [Core.turn_half] at hsum
    rw [neg_div] at hsum ⊢
    rw [neg_add_cancel, turn_zero] at hsum
    linear_combination hsum

-- The fraction of a turn that the first bits make, bit by bit.
theorem turn_low (sign : ℝ) (x : Basis n) (j : ℕ) :
    turn (sign * x.low (j + 1) / 2 ^ (j + 1)) =
      ∏ k ∈ Finset.range (j + 1),
        if x.bit k then turn (sign / 2 ^ (j - k + 1)) else 1 := by
  have hsum : sign * x.low (j + 1) / 2 ^ (j + 1) =
      ∑ k ∈ Finset.range (j + 1), if x.bit k then sign / 2 ^ (j - k + 1) else 0 := by
    rw [Basis.low, Nat.cast_sum, Finset.mul_sum, Finset.sum_div]
    refine Finset.sum_congr rfl fun k hk => ?_
    have hpow : (2 : ℝ) ^ (j + 1) = 2 ^ k * 2 ^ (j - k + 1) := by
      rw [← pow_add]
      congr 1
      have := Finset.mem_range.mp hk
      omega
    cases hb : x.bit k with
    | false => simp
    | true =>
        rw [hpow]
        simp
        field_simp
  rw [hsum, turn_sum]
  refine Finset.prod_congr rfl fun k _ => ?_
  cases hb : x.bit k with
  | false => simp
  | true => simp

-- The amplitudes of a qubit in the transform of a basis state.
def fourierBit (sign : ℝ) (x : ℕ) (j : ℕ) (b : Bool) : ℂ :=
  (if b then turn (sign * x / 2 ^ (j + 1)) else 1) / (√2 : ℝ)

theorem turn_add_nat (x : ℝ) {sign : ℝ} (hsign : IsSign sign) (m : ℕ) :
    turn (x + sign * m) = turn x := by
  rw [turn_add]
  rcases hsign with rfl | rfl
  · rw [one_mul, turn_nat, mul_one]
  · have hint : (-1 : ℝ) * m = ((-m : ℤ) : ℝ) := by push_cast; ring
    rw [hint, turn_int, mul_one]

-- Only the first bits count: the others are whole turns.
theorem fourierBit_low {sign : ℝ} (hsign : IsSign sign) (x : Basis n) {t j : ℕ} (hj : j < t) :
    fourierBit sign (x.low t) j = fourierBit sign (x.low (j + 1)) j := by
  obtain ⟨m, hm⟩ := Basis.low_add (y := x) (show j + 1 ≤ t by omega)
  funext b
  unfold fourierBit
  have hturn : sign * (x.low t : ℝ) / 2 ^ (j + 1) =
      sign * x.low (j + 1) / 2 ^ (j + 1) + sign * m := by
    rw [hm]
    push_cast
    field_simp
  rw [hturn, turn_add_nat _ hsign]

end phases

section blocks

-- The amplitudes of a qubit that has a definite bit.
def definite (c : Bool) (b : Bool) : ℂ := if b = c then 1 else 0

theorem hadamard_definite (a c : Bool) :
    ∑ b, hadamard a b * definite c b = (if a && c then -1 else 1) / (√2 : ℝ) := by
  cases c with
  | false => simp [hadamard, definite]
  | true => simp [hadamard, definite]

-- A Hadamard gate and the controlled phases after it turn the bit j of a basis state into
-- the amplitudes of its transform, when the controls hold the bits before j.
theorem run_block {f : ℕ → Bool → ℂ} {sign : ℝ} (hsign : IsSign sign) (x : Basis n) {j target : ℕ}
    (ht : target < n) (htarget : f target = definite (x.bit j)) (angle : ℕ → ℝ)
    (bits : ℕ → Bool) (controls : List ℕ)
    (hcontrols : ∀ k ∈ controls, k < n ∧ k ≠ target ∧ f k = definite (bits k))
    (hphases : (controls.map fun k => if bits k then phaseFactor (angle k) else 1).prod =
      ∏ k ∈ Finset.range j, if x.bit k then turn (sign / 2 ^ (j - k + 1)) else 1) :
    run satisfies (.h target :: controls.map fun k => .cp (angle k) k target) (product f) =
      product (Function.update f target (fourierBit sign (x.low (j + 1)) j)) := by
  have hcontrols' : ∀ k ∈ controls, k < n ∧ k ≠ target ∧ ∀ b, b ≠ bits k →
      Function.update f target (fun a => ∑ b, hadamard a b * f target b) k b = 0 := by
    intro k hk
    obtain ⟨hlt, hne, hdefinite⟩ := hcontrols k hk
    refine ⟨hlt, hne, fun b hb => ?_⟩
    rw [Function.update_of_ne hne, hdefinite]
    simp [definite, hb]
  rw [run_h _ ht, run_phases ht angle bits controls hcontrols', Function.update_idem,
    Function.update_self]
  refine congrArg product (congrArg (Function.update f target) (funext fun b => ?_))
  rw [htarget, hadamard_definite]
  cases b with
  | false => simp [fourierBit]
  | true =>
      have hlast : (if x.bit j then turn (sign / 2 ^ (j - j + 1)) else 1) =
          if x.bit j then -1 else 1 := by
        simp [hsign.turn_half]
      simp only [Bool.and_true, Bool.true_and, if_true, fourierBit]
      rw [hphases, turn_low, Finset.prod_range_succ, hlast, mul_div_assoc]

end blocks

section forward

-- The angles of the source are fractions of half a turn.
theorem phaseFactor_pi_div (sign : ℝ) (d : ℕ) :
    phaseFactor (sign * Real.pi / 2 ^ d) = turn (sign / 2 ^ (d + 1)) := by
  unfold turn
  congr 1
  rw [pow_succ]
  field_simp

-- The reversal of the first bits, as far as the first swaps have made it.
def reversal (t m q : ℕ) : ℕ := if q < t ∧ (q < m ∨ t - m ≤ q) then t - 1 - q else q

theorem reversal_succ {t m : ℕ} (hm : 2 * (m + 1) ≤ t) (q : ℕ) :
    reversal t m (Equiv.swap m (t - m - 1) q) = reversal t (m + 1) q := by
  unfold reversal
  by_cases hfirst : q = m
  · subst hfirst
    rw [Equiv.swap_apply_left, if_neg (by omega), if_pos (by omega)]
    omega
  · by_cases hsecond : q = t - m - 1
    · subst hsecond
      rw [Equiv.swap_apply_right, if_neg (by omega), if_pos (by omega)]
      omega
    · rw [Equiv.swap_apply_of_ne_of_ne hfirst hsecond]
      by_cases hdone : q < t ∧ (q < m ∨ t - m ≤ q)
      · rw [if_pos hdone, if_pos (by omega)]
      · rw [if_neg hdone, if_neg (by omega)]

theorem run_swaps {f : ℕ → Bool → ℂ} {t : ℕ} (ht : t ≤ n) (m : ℕ) (hm : 2 * m ≤ t) :
    run satisfies ((List.range m).map fun i => .swap i (t - i - 1)) (product f) =
      product fun q => f (reversal t m q) := by
  induction m with
  | zero =>
      refine product_congr fun q _ => ?_
      rw [reversal, if_neg (by omega)]
  | succ m ih =>
      rw [List.range_succ, List.map_append, run_append, ih (by omega)]
      have hswap := swap_product (f := fun q => f (reversal t m q))
        (show m < n by omega) (show t - m - 1 < n by omega)
      simp only [reversal_succ hm] at hswap
      exact hswap

-- All swaps together turn the first bits around.
theorem run_all_swaps {f : ℕ → Bool → ℂ} {t : ℕ} (ht : t ≤ n) :
    run satisfies ((List.range (t / 2)).map fun i => .swap i (t - i - 1)) (product f) =
      product fun q => f (if q < t then t - 1 - q else q) := by
  rw [run_swaps ht (t / 2) (by omega)]
  refine product_congr fun q _ => ?_
  congr 1
  unfold reversal
  by_cases hq : q < t
  · by_cases hmoved : q < t / 2 ∨ t - t / 2 ≤ q
    · rw [if_pos ⟨hq, hmoved⟩, if_pos hq]
    · rw [if_neg (fun h => hmoved h.2), if_pos hq]
      omega
  · rw [if_neg (fun h => hq h.1), if_neg hq]

-- The transform of a basis state, as the amplitudes of its qubits.
def fourierProduct (sign : ℝ) (t : ℕ) (x : Basis n) (q : ℕ) : Bool → ℂ :=
  if q < t then fourierBit sign (x.low t) (t - 1 - q) else definite (x.bit q)

def forwardBlock (t j : ℕ) : List (Gate ℝ) :=
  .h j :: (List.range' (j + 1) (t - (j + 1))).map fun k => .cp (Real.pi / 2 ^ (k - j)) k j

-- Qubit j holds the bit t - 1 - j after the swaps, and the later ones the bits before it.
theorem run_forwardBlock {f : ℕ → Bool → ℂ} {t j : ℕ} (ht : t ≤ n) (hj : j < t) (x : Basis n)
    (hf : ∀ q, j ≤ q → q < t → f q = definite (x.bit (t - 1 - q))) :
    run satisfies (forwardBlock t j) (product f) =
      product (Function.update f j (fourierBit 1 (x.low t) (t - 1 - j))) := by
  have hphases : ((List.range' (j + 1) (t - (j + 1))).map fun k =>
      if x.bit (t - 1 - k) then phaseFactor (Real.pi / 2 ^ (k - j)) else 1).prod =
      ∏ k ∈ Finset.range (t - 1 - j),
        if x.bit k then turn (1 / 2 ^ (t - 1 - j - k + 1)) else 1 := by
    have hlist : (List.range' (j + 1) (t - (j + 1))).reverse =
        (List.range (t - 1 - j)).map fun k => t - 1 - k := by
      rw [List.reverse_range']
      have hcount : t - (j + 1) = t - 1 - j := by omega
      have hlast : j + 1 + (t - 1 - j) - 1 = t - 1 := by omega
      rw [hcount, hlast]
    have hperm := (List.reverse_perm (List.range' (j + 1) (t - (j + 1)))).map fun k =>
      if x.bit (t - 1 - k) then phaseFactor (Real.pi / 2 ^ (k - j)) else 1
    rw [← hperm.prod_eq, hlist, List.map_map, prod_map_range]
    refine Finset.prod_congr rfl fun k hk => ?_
    have hk := Finset.mem_range.mp hk
    have hangle := phaseFactor_pi_div 1 (t - 1 - k - j)
    rw [one_mul] at hangle
    have hbit : t - 1 - (t - 1 - k) = k := by omega
    have hexp : t - 1 - k - j + 1 = t - 1 - j - k + 1 := by omega
    rw [hexp] at hangle
    simp only [Function.comp_apply, hbit, hangle]
  rw [fourierBit_low (.inl rfl) x (show t - 1 - j < t by omega)]
  refine run_block (.inl rfl) x (by omega) (hf j (le_refl j) hj) _ (fun k => x.bit (t - 1 - k)) _
    ?_ hphases
  intro k hk
  obtain ⟨hlow, hhigh⟩ := List.mem_range'_1.mp hk
  exact ⟨by omega, by omega, hf k (by omega) (by omega)⟩

theorem run_forwardBlocks {f : ℕ → Bool → ℂ} {t : ℕ} (ht : t ≤ n) (x : Basis n)
    (hf : ∀ q < t, f q = definite (x.bit (t - 1 - q))) (m : ℕ) (hm : m ≤ t) :
    run satisfies ((List.range m).flatMap (forwardBlock t)) (product f) =
      product fun q => if q < m then fourierBit 1 (x.low t) (t - 1 - q) else f q := by
  induction m with
  | zero => simp
  | succ m ih =>
      rw [List.range_succ, List.flatMap_append, run_append, ih (by omega), List.flatMap_singleton,
        run_forwardBlock ht (by omega) x]
      · exact product_extend m
      · intro q hmq hqt
        rw [if_neg (by omega)]
        exact hf q hqt

theorem run_qft {t : ℕ} (ht : t ≤ n) (x : Basis n) :
    run satisfies (buildQftCircuit Real.pi t).gates (ket x) = product (fourierProduct 1 t x) := by
  have hgates : (buildQftCircuit Real.pi t).gates =
      ((List.range (t / 2)).map fun i => Gate.swap i (t - i - 1)) ++
        (List.range t).flatMap (forwardBlock t) := rfl
  have hket : ket x = product fun q => definite (x.bit q) := ket_eq_product x
  rw [hgates, run_append, hket, run_all_swaps ht, run_forwardBlocks ht x _ t (le_refl t)]
  · refine product_congr fun q _ => ?_
    unfold fourierProduct
    by_cases hq : q < t
    · simp [hq]
    · simp [hq]
  · intro q hq
    simp [hq]

end forward

section inverse

def inverseBlock (j : ℕ) : List (Gate ℝ) :=
  .h j :: (List.range j).reverse.map fun k => .cp (-Real.pi / 2 ^ (j - k)) k j

theorem idxOf_reverse_range {t k : ℕ} (hk : k < t) : (List.range t).reverse.idxOf k = t - 1 - k := by
  have hnodup : (List.range t).reverse.Nodup := List.nodup_reverse.mpr List.nodup_range
  have hlength : t - 1 - k < (List.range t).reverse.length := by
    rw [List.length_reverse, List.length_range]
    omega
  have hget : (List.range t).reverse[t - 1 - k] = k := by
    rw [List.getElem_reverse, List.getElem_range, List.length_range]
    omega
  have hidx := hnodup.idxOf_getElem (t - 1 - k) hlength
  rwa [hget] at hidx

theorem drop_reverse_range {t j : ℕ} (hj : j < t) :
    (List.range t).reverse.drop (t - 1 - j + 1) = (List.range j).reverse := by
  refine List.ext_getElem ?_ ?_
  · simp only [List.length_drop, List.length_reverse, List.length_range]
    omega
  · intro i _ _
    simp only [List.getElem_drop, List.getElem_reverse, List.getElem_range, List.length_range]
    omega

theorem zipIdx_reverse_range (t : ℕ) :
    (List.range t).reverse.zipIdx = (List.range t).reverse.map fun j => (j, t - 1 - j) := by
  refine List.ext_getElem ?_ ?_
  · simp
  · intro i hi _
    simp only [List.length_zipIdx, List.length_reverse, List.length_range] at hi
    simp only [List.getElem_zipIdx, List.getElem_map, List.getElem_reverse, List.getElem_range,
      List.length_range, Prod.mk.injEq, true_and]
    omega

-- The inverse branch goes through the qubits from the last to the first.
theorem inverse_gates (t : ℕ) :
    (buildQftCircuit Real.pi t true).gates =
      (List.range t).reverse.flatMap inverseBlock ++
        (List.range (t / 2)).map fun i => .swap i (t - i - 1) := by
  unfold buildQftCircuit
  simp only [Bool.not_true, Bool.false_eq_true, if_false]
  congr 1
  rw [zipIdx_reverse_range, List.flatMap_map]
  refine List.flatMap_congr fun j hj => ?_
  have hj : j < t := by simpa using hj
  rw [drop_reverse_range hj]
  unfold inverseBlock
  congr 1
  refine List.map_congr_left fun k hk => ?_
  have hk : k < j := by simpa using hk
  rw [idxOf_reverse_range hj, idxOf_reverse_range (show k < t by omega)]
  have hdistance : (((t - 1 - k : ℕ) : Int) - ((t - 1 - j : ℕ) : Int)).natAbs = j - k := by omega
  rw [hdistance]

theorem run_inverseBlock {f : ℕ → Bool → ℂ} {j : ℕ} (hj : j < n) (x : Basis n)
    (hf : ∀ q ≤ j, f q = definite (x.bit q)) :
    run satisfies (inverseBlock j) (product f) =
      product (Function.update f j (fourierBit (-1) (x.low (j + 1)) j)) := by
  have hphases : ((List.range j).reverse.map fun k =>
      if x.bit k then phaseFactor (-Real.pi / 2 ^ (j - k)) else 1).prod =
      ∏ k ∈ Finset.range j, if x.bit k then turn (-1 / 2 ^ (j - k + 1)) else 1 := by
    have hperm := (List.reverse_perm (List.range j)).map fun k =>
      if x.bit k then phaseFactor (-Real.pi / 2 ^ (j - k)) else 1
    rw [hperm.prod_eq, prod_map_range]
    refine Finset.prod_congr rfl fun k _ => ?_
    have hangle := phaseFactor_pi_div (-1) (j - k)
    rw [neg_one_mul] at hangle
    rw [hangle]
  refine run_block (.inr rfl) x hj (hf j (le_refl j)) _ x.bit _ ?_ hphases
  intro k hk
  have hk : k < j := by simpa using hk
  exact ⟨by omega, by omega, hf k (by omega)⟩

theorem run_inverseBlocks {f : ℕ → Bool → ℂ} (x : Basis n) (m : ℕ) (hm : m ≤ n)
    (hf : ∀ q < m, f q = definite (x.bit q)) :
    run satisfies ((List.range m).reverse.flatMap inverseBlock) (product f) =
      product fun q => if q < m then fourierBit (-1) (x.low (q + 1)) q else f q := by
  induction m generalizing f with
  | zero => simp
  | succ m ih =>
      rw [List.range_succ, List.reverse_append, List.reverse_singleton, List.singleton_append,
        List.flatMap_cons, run_append,
        run_inverseBlock (by omega) x fun q hq => hf q (by omega), ih (by omega)]
      · refine product_congr fun q _ => ?_
        by_cases hq : q = m
        · subst hq
          rw [Function.update_self, if_neg (by omega), if_pos (by omega)]
        · rw [Function.update_of_ne hq]
          by_cases hlt : q < m
          · rw [if_pos hlt, if_pos (by omega)]
          · rw [if_neg hlt, if_neg (by omega)]
      · intro q hq
        rw [Function.update_of_ne (by omega)]
        exact hf q (by omega)

theorem run_qft_dagger {t : ℕ} (ht : t ≤ n) (x : Basis n) :
    run satisfies (buildQftCircuit Real.pi t true).gates (ket x) =
      product (fourierProduct (-1) t x) := by
  have hket : ket x = product fun q => definite (x.bit q) := ket_eq_product x
  rw [inverse_gates, run_append, hket, run_inverseBlocks x t ht fun _ _ => rfl, run_all_swaps ht]
  refine product_congr fun q _ => ?_
  unfold fourierProduct
  by_cases hq : q < t
  · have hlast : t - 1 - q < t := by omega
    rw [if_pos hq, if_pos hq, if_pos hlast, fourierBit_low (.inr rfl) x hlast]
  · rw [if_neg hq, if_neg hq, if_neg hq]

end inverse

end

end QuantumPlatform.Core
