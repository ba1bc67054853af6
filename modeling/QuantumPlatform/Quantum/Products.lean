import QuantumPlatform.Quantum.States

namespace QuantumPlatform.Quantum

variable {n : ℕ}

-- A state without entanglement: each qubit has its own two amplitudes.
def product (f : ℕ → Bool → ℂ) : State n := fun y => ∏ q ∈ Finset.range n, f q (y.bit q)

section product

variable {f g : ℕ → Bool → ℂ}

theorem product_congr (h : ∀ q < n, f q = g q) : (product f : State n) = product g := by
  funext y
  exact Finset.prod_congr rfl fun q hq => by rw [h q (Finset.mem_range.mp hq)]

theorem ket_eq_product (x : Basis n) :
    ket x = product fun q b => if b = x.bit q then 1 else 0 := by
  funext y
  unfold ket product
  by_cases hy : y = x
  · simp [hy]
  · obtain ⟨q, hq, hne⟩ : ∃ q, q < n ∧ y.bit q ≠ x.bit q := by
      by_contra h
      push Not at h
      exact hy (Basis.ext_bit h)
    rw [if_neg hy, Finset.prod_eq_zero (Finset.mem_range.mpr hq) (by simp [hne])]

-- All factors but one.
def others (f : ℕ → Bool → ℂ) (q : ℕ) (y : Basis n) : ℂ :=
  ∏ r ∈ (Finset.range n).erase q, f r (y.bit r)

theorem product_eq_others {q : ℕ} (hq : q < n) (y : Basis n) :
    product f y = f q (y.bit q) * others f q y :=
  (Finset.mul_prod_erase _ _ (Finset.mem_range.mpr hq)).symm

theorem others_set (q : ℕ) (y : Basis n) (b : Bool) : others f q (y.set q b) = others f q y :=
  Finset.prod_congr rfl fun _ hr => by rw [Basis.bit_set_of_ne (Finset.ne_of_mem_erase hr)]

theorem others_update (q : ℕ) (a : Bool → ℂ) (y : Basis n) :
    others (Function.update f q a) q y = others f q y :=
  Finset.prod_congr rfl fun _ hr => by rw [Function.update_of_ne (Finset.ne_of_mem_erase hr)]

theorem product_update {q : ℕ} (hq : q < n) (a : Bool → ℂ) (y : Basis n) :
    product (Function.update f q a) y = a (y.bit q) * others f q y := by
  rw [product_eq_others hq, others_update, Function.update_self]

-- One qubit after the other gets its new amplitudes.
theorem product_extend (m : ℕ) :
    (product (Function.update (fun q => if q < m then g q else f q) m (g m)) : State n) =
      product fun q => if q < m + 1 then g q else f q := by
  refine product_congr fun q _ => ?_
  by_cases hq : q = m
  · subst hq
    rw [Function.update_self, if_pos (by omega)]
  · rw [Function.update_of_ne hq]
    by_cases hlt : q < m
    · rw [if_pos hlt, if_pos (by omega)]
    · rw [if_neg hlt, if_neg (by omega)]

-- A gate on one qubit acts on the amplitudes of this qubit.
theorem single_product (u : Bool → Bool → ℂ) {q : ℕ} (hq : q < n) :
    single u q (product f : State n) =
      product (Function.update f q fun a => ∑ b, u a b * f q b) := by
  funext y
  rw [single_apply, product_update hq, Finset.sum_mul]
  refine Finset.sum_congr rfl fun b _ => ?_
  rw [product_eq_others hq, others_set, Basis.bit_set_self hq, mul_assoc]

-- A phase controlled by a qubit with a definite bit belongs to the other qubit.
theorem controlledPhase_product {k j : ℕ} (hk : k < n) (hj : j < n) (hne : k ≠ j) {c : Bool}
    (hc : ∀ b, b ≠ c → f k b = 0) (w : ℂ) :
    diagonal (fun y : Basis n => if y.bit k && y.bit j then w else 1) (product f) =
      product (Function.update f j fun b => (if c && b then w else 1) * f j b) := by
  funext y
  rw [diagonal_apply, product_update hj]
  by_cases hbit : y.bit k = c
  · rw [product_eq_others hj, hbit, mul_assoc]
  · have hzero : others f j y = 0 :=
      Finset.prod_eq_zero (Finset.mem_erase.mpr ⟨hne, Finset.mem_range.mpr hk⟩) (hc _ hbit)
    rw [product_eq_others hj, hzero]
    simp

-- Exchanges two bits.
def swapBits (a b : ℕ) (y : Basis n) : Basis n := (y.set a (y.bit b)).set b (y.bit a)

theorem bit_swapBits {a b : ℕ} (ha : a < n) (hb : b < n) (y : Basis n) (q : ℕ) :
    (swapBits a b y).bit q = y.bit (Equiv.swap a b q) := by
  unfold swapBits
  by_cases hqb : q = b
  · subst hqb
    rw [Basis.bit_set_self hb, Equiv.swap_apply_right]
  · rw [Basis.bit_set_of_ne hqb]
    by_cases hqa : q = a
    · subst hqa
      rw [Basis.bit_set_self ha, Equiv.swap_apply_left]
    · rw [Basis.bit_set_of_ne hqa, Equiv.swap_apply_of_ne_of_ne hqa hqb]

theorem swap_product {a b : ℕ} (ha : a < n) (hb : b < n) :
    permute (swapBits a b) (product f : State n) =
      product fun q => f (Equiv.swap a b q) := by
  funext y
  rw [permute_apply]
  unfold product
  have hmem : ∀ q ∈ Finset.range n, Equiv.swap a b q ∈ Finset.range n := by
    intro q hq
    rw [Finset.mem_range] at hq ⊢
    by_cases hqa : q = a
    · rw [hqa, Equiv.swap_apply_left]
      exact hb
    · by_cases hqb : q = b
      · rw [hqb, Equiv.swap_apply_right]
        exact ha
      · rwa [Equiv.swap_apply_of_ne_of_ne hqa hqb]
  refine Finset.prod_nbij' (Equiv.swap a b) (Equiv.swap a b) hmem hmem
    (fun q _ => Equiv.swap_apply_self a b q) (fun q _ => Equiv.swap_apply_self a b q) ?_
  intro q _
  simp only [bit_swapBits ha hb, Equiv.swap_apply_self]

end product

end QuantumPlatform.Quantum
