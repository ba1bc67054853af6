import QuantumPlatform.Core.Fourier
import QuantumPlatform.Quantum.Reflections

namespace QuantumPlatform.Core

open Quantum

variable {n : ℕ}

section states

-- The basis state that a marked state names, its last character for qubit 0.
def stateBasis (n : ℕ) (state : String) : Basis n := fun i =>
  decide (state.toList.reverse[i.val]? = some '1')

def zeroBits (state : String) : List ℕ :=
  (state.toList.reverse.zipIdx.filter fun bit => bit.1 = '0').map Prod.snd

theorem nodup_zeroBits (state : String) : (zeroBits state).Nodup := by
  have hsublist : (zeroBits state).Sublist (state.toList.reverse.zipIdx.map Prod.snd) :=
    List.filter_sublist.map Prod.snd
  rw [List.zipIdx_map_snd] at hsublist
  exact hsublist.nodup List.nodup_range'

variable {state : String}

theorem char_of_valid (hvalid : validState n state = true) {q : ℕ} (hq : q < n) :
    state.toList.reverse[q]? = some (bitChar ((stateBasis n state).bit q)) := by
  unfold validState at hvalid
  rw [Bool.and_eq_true, decide_eq_true_eq] at hvalid
  have hlength : state.toList.reverse.length = n := by
    rw [List.length_reverse, String.length_toList, hvalid.1]
  have hlt : q < state.toList.reverse.length := by rw [hlength]; exact hq
  have hbit := List.all_eq_true.mp hvalid.2 _
    (List.mem_reverse.mp (List.getElem_mem hlt))
  rw [Basis.bit_of_lt hq, stateBasis, List.getElem?_eq_getElem hlt]
  unfold isBit at hbit
  rw [Bool.or_eq_true, decide_eq_true_eq, decide_eq_true_eq] at hbit
  rcases hbit with hzero | hone
  · rw [hzero]
    rfl
  · rw [hone]
    rfl

theorem mem_zeroBits (hvalid : validState n state = true) {q : ℕ} (hq : q < n) :
    q ∈ zeroBits state ↔ (stateBasis n state).bit q = false := by
  have hchar := char_of_valid hvalid hq
  unfold zeroBits
  simp only [List.mem_map, List.mem_filter, decide_eq_true_eq, Prod.exists,
    List.mem_zipIdx_iff_getElem?]
  cases hbit : (stateBasis n state).bit q with
  | false =>
      rw [hbit] at hchar
      exact ⟨fun _ => rfl, fun _ => ⟨'0', q, ⟨hchar, rfl⟩, rfl⟩⟩
  | true =>
      rw [hbit] at hchar
      refine ⟨?_, fun h => by cases h⟩
      rintro ⟨char, _, ⟨hget, rfl⟩, rfl⟩
      rw [hchar] at hget
      cases hget

-- The key of the counts for a state of the whole register.
def stateKey (y : Basis n) : String := countsKey ((List.range n).zip (List.range n)) y

-- Measuring everything at the end leaves the key of the whole state.
theorem countsKey_measureAll {gates : List (Gate ℝ)} (hgates : measured n gates = [])
    (y : Basis n) : countsKey (measured n (gates ++ [.measureAll])) y = stateKey y := by
  rw [measured_append, hgates]
  simp [measured, Gate.measured, stateKey]

theorem stateKey_injective : Function.Injective (stateKey (n := n)) := by
  intro x y h
  unfold stateKey at h
  rw [countsKey_range, countsKey_range, String.ofList_inj, List.map_inj_left] at h
  refine Basis.ext_bit fun q hq => ?_
  have hchar := h q (by simpa using hq)
  cases hx : x.bit q <;> cases hy : y.bit q <;> simp_all [bitChar]

theorem stateKey_stateBasis (hvalid : validState n state = true) :
    stateKey (stateBasis n state) = state := by
  have hlength : state.toList.reverse.length = n := by
    unfold validState at hvalid
    rw [Bool.and_eq_true, decide_eq_true_eq] at hvalid
    rw [List.length_reverse, String.length_toList, hvalid.1]
  have hreversed : (List.range n).map (fun q => bitChar ((stateBasis n state).bit q)) =
      state.toList.reverse := by
    refine List.ext_getElem? fun q => ?_
    by_cases hq : q < n
    · rw [char_of_valid hvalid hq, List.getElem?_map, List.getElem?_range hq, Option.map_some]
    · rw [List.getElem?_eq_none (by simpa using hq), List.getElem?_eq_none (by omega)]
  unfold stateKey
  rw [countsKey_range, List.map_reverse, hreversed, List.reverse_reverse, String.ofList_toList]

theorem stateKey_eq_iff (hvalid : validState n state = true) (y : Basis n) :
    stateKey y = state ↔ y = stateBasis n state := by
  refine ⟨fun h => stateKey_injective ?_, fun h => ?_⟩
  · rw [h, stateKey_stateBasis hvalid]
  · rw [h, stateKey_stateBasis hvalid]

end states

noncomputable section gates

variable {satisfies : String → List String → Basis n → Bool}

theorem run_xs {qubits : List ℕ} (hnodup : qubits.Nodup) :
    run satisfies (qubits.map .x) = permute (Basis.flipAll qubits) := by
  induction qubits with
  | nil =>
      refine LinearMap.ext fun ψ => funext fun y => congrArg ψ ?_
      funext i
      simp [Basis.flipAll]
  | cons q rest ih =>
      obtain ⟨hq, hrest⟩ := List.nodup_cons.mp hnodup
      refine LinearMap.ext fun ψ => funext fun y => ?_
      rw [List.map_cons, run_cons, ih hrest, permute_apply, permute_apply,
        ← Basis.flipAll_cons hq]
      rfl

theorem inv_sqrt_two_sq : (((√2 : ℝ) : ℂ)⁻¹) ^ 2 = 1 / 2 := by
  rw [inv_pow, ← Complex.ofReal_pow, Real.sq_sqrt (by norm_num)]
  norm_num

theorem hadamard_twice (a : Bool) (g : Bool → ℂ) :
    ∑ b, hadamard a b * ∑ c, hadamard b c * g c = g a := by
  simp only [Fintype.sum_bool, hadamard, div_eq_mul_inv]
  cases a with
  | false =>
      simp only [Bool.and_true, Bool.and_false, if_true, if_false, Bool.false_eq_true]
      linear_combination 2 * g false * inv_sqrt_two_sq
  | true =>
      simp only [Bool.and_true, Bool.and_false, if_true, if_false, Bool.false_eq_true]
      linear_combination 2 * g true * inv_sqrt_two_sq

theorem hadamard_not (a : Bool) (g : Bool → ℂ) :
    ∑ b, hadamard a b * ∑ c, hadamard (!b) c * g c = if a then -g a else g a := by
  simp only [Fintype.sum_bool, hadamard, div_eq_mul_inv, Bool.not_true, Bool.not_false]
  cases a with
  | false =>
      simp only [Bool.and_true, Bool.and_false, if_true, if_false, Bool.false_eq_true]
      linear_combination 2 * g false * inv_sqrt_two_sq
  | true =>
      simp only [Bool.and_true, Bool.and_false, if_true, if_false, Bool.false_eq_true]
      linear_combination -2 * g true * inv_sqrt_two_sq

-- Between two Hadamards the multi-controlled X gives a sign to the all-ones state.
theorem run_mcz (hn : 1 ≤ n) :
    run satisfies (applyMcz n) = phaseFlip fun y => (List.range n).all y.bit := by
  unfold applyMcz
  by_cases hone : n = 1
  · subst hone
    rw [if_pos rfl]
    refine LinearMap.ext fun ψ => funext fun y => ?_
    rw [run_cons, run_nil, phaseFlip_apply]
    simp [Gate.denote]
  · rw [if_neg hone]
    refine LinearMap.ext fun ψ => funext fun y => ?_
    have htarget : n - 1 < n := by omega
    have hcontrols : ∀ b, (List.range (n - 1)).all (y.set (n - 1) b).bit =
        (List.range (n - 1)).all y.bit := by
      intro b
      rw [Bool.eq_iff_iff, List.all_eq_true, List.all_eq_true]
      refine forall₂_congr fun q hq => ?_
      rw [Basis.bit_set_of_ne (ne_of_lt (List.mem_range.mp hq))]
    have hrange : List.range n = List.range (n - 1) ++ [n - 1] := by
      rw [← List.range_succ, Nat.succ_eq_add_one, Nat.sub_add_cancel hn]
    have hall : (List.range n).all y.bit = ((List.range (n - 1)).all y.bit && y.bit (n - 1)) := by
      rw [hrange, List.all_append]
      simp
    have hself : ψ (y.set (n - 1) (y.bit (n - 1))) = ψ y := by rw [Basis.set_bit]
    rw [run_cons, run_cons, run_cons, run_nil, Module.End.one_apply, phaseFlip_apply, hall]
    simp only [Gate.denote]
    rw [single_apply]
    simp only [permute_apply, hcontrols]
    by_cases hset : (List.range (n - 1)).all y.bit = true
    · have hflip : ∀ b, (y.set (n - 1) b).flip (n - 1) = y.set (n - 1) !b := by
        intro b
        rw [Basis.flip, Basis.bit_set_self htarget, Basis.set_set]
      simp only [hset, if_true, hflip, single_set htarget, Bool.true_and]
      rw [hadamard_not _ fun c => ψ (y.set (n - 1) c), hself]
    · simp only [hset, if_false, single_set htarget, Bool.false_and, Bool.false_eq_true]
      rw [hadamard_twice _ fun c => ψ (y.set (n - 1) c), hself]

-- The X gates around it move the sign to another state.
theorem run_conjugated (hn : 1 ≤ n) {qubits : List ℕ} (hnodup : qubits.Nodup) :
    run satisfies (qubits.map .x ++ applyMcz n ++ qubits.map .x) =
      phaseFlip fun y => (List.range n).all (y.flipAll qubits).bit := by
  have hinvolutive : Function.Involutive (Basis.flipAll (n := n) qubits) :=
    Basis.flipAll_flipAll qubits
  rw [run_append_mul, run_append_mul, run_xs hnodup, run_mcz hn, ← mul_assoc,
    phaseFlip_conjugate hinvolutive]

-- The X gates act on the qubits that are to read 0.
theorem all_flipAll {qubits : List ℕ} {x : Basis n}
    (hqubits : ∀ q < n, (q ∈ qubits ↔ x.bit q = false)) (y : Basis n) :
    (List.range n).all (y.flipAll qubits).bit = decide (y = x) := by
  rw [Bool.eq_iff_iff, List.all_eq_true, decide_eq_true_eq]
  have hbit : ∀ q < n, (y.flipAll qubits).bit q = true ↔ y.bit q = x.bit q := by
    intro q hq
    have hmem := hqubits q hq
    rw [Basis.bit_flipAll _ _ hq]
    cases hx : x.bit q with
    | false => simp [hmem.mpr hx]
    | true => simp [mt hmem.mp (by simp [hx])]
  refine ⟨fun h => Basis.ext_bit fun q hq => ?_, ?_⟩
  · exact (hbit q hq).mp (h q (List.mem_range.mpr hq))
  · rintro rfl q hq
    exact (hbit q (List.mem_range.mp hq)).mpr rfl

-- A state that is listed an even number of times is not marked after all.
theorem run_oracle (hn : 1 ≤ n) (states : List String)
    (hvalid : ∀ state ∈ states, validState n state = true) :
    run satisfies (applyOracle states n) =
      phaseFlip fun y => states.count (stateKey y) % 2 = 1 := by
  induction states with
  | nil =>
      refine LinearMap.ext fun ψ => funext fun y => ?_
      rw [phaseFlip_apply]
      simp [applyOracle]
  | cons state rest ih =>
      have hhead := hvalid state List.mem_cons_self
      have hrest := ih fun other hmem => hvalid other (List.mem_cons_of_mem state hmem)
      have hcons : applyOracle (Θ := ℝ) (state :: rest) n =
          ((zeroBits state).map .x ++ applyMcz n ++ (zeroBits state).map .x) ++
            applyOracle rest n := rfl
      rw [hcons, run_append_mul, hrest, run_conjugated hn (nodup_zeroBits state)]
      refine LinearMap.ext fun ψ => funext fun y => ?_
      rw [Module.End.mul_apply, phaseFlip_apply, phaseFlip_apply, phaseFlip_apply,
        all_flipAll fun q hq => mem_zeroBits hhead hq, List.count_cons]
      simp only [← stateKey_eq_iff hhead]
      by_cases hkey : stateKey y = state
      · subst hkey
        rcases Nat.mod_two_eq_zero_or_one (rest.count (stateKey y)) with heven | hodd
        · simp [heven, Nat.add_mod]
        · simp [hodd, Nat.add_mod]
      · simp [hkey, Ne.symm hkey]

def hadamards (n : ℕ) : List (Gate ℝ) := (List.range n).map .h

theorem run_hadamards_ket (x : Basis n) :
    run satisfies (hadamards n) (ket x) = product fun q a => hadamard a (x.bit q) := by
  rw [hadamards, ket_eq_product, run_hs n (le_refl n)]
  refine product_congr fun q hq => ?_
  rw [if_pos hq]
  funext a
  simp

theorem run_hadamards_zero :
    run satisfies (hadamards n) (ket (Basis.ofNat n 0)) = uniform n := by
  rw [run_hadamards_ket]
  funext y
  have hfactor : ∀ q ∈ Finset.range n,
      hadamard (y.bit q) ((Basis.ofNat n 0).bit q) = ((√2 : ℝ) : ℂ)⁻¹ := by
    intro q hq
    rw [Basis.bit_ofNat (Finset.mem_range.mp hq), Nat.zero_testBit]
    simp [hadamard]
  rw [product, Finset.prod_congr rfl hfactor, Finset.prod_const, Finset.card_range]
  rfl

theorem hadamards_hadamards :
    run satisfies (hadamards n) * run satisfies (hadamards n) = 1 := by
  refine Operator.ext_ket fun x => ?_
  have hlayer : run satisfies (hadamards n) (product fun q a => hadamard a (x.bit q)) =
      ket x := by
    rw [hadamards, run_hs n (le_refl n), ket_eq_product]
    refine product_congr fun q hq => ?_
    rw [if_pos hq]
    funext a
    have htwice := hadamard_twice a fun b => if b = x.bit q then 1 else 0
    simpa using htwice
  rw [Module.End.mul_apply, run_hadamards_ket, hlayer, Module.End.one_apply]

theorem run_hadamards_apply_zero (ψ : State n) :
    run satisfies (hadamards n) ψ (Basis.ofNat n 0) = ((√2 : ℝ) : ℂ)⁻¹ ^ n * ∑ x, ψ x := by
  have hfactor : ∀ x : Basis n, run satisfies (hadamards n) (ket x) (Basis.ofNat n 0) =
      ((√2 : ℝ) : ℂ)⁻¹ ^ n := by
    intro x
    rw [run_hadamards_ket, product]
    refine (Finset.prod_congr rfl fun q hq => ?_).trans
      ((Finset.prod_const _).trans (by rw [Finset.card_range]))
    rw [Basis.bit_ofNat (Finset.mem_range.mp hq), Nat.zero_testBit]
    simp [hadamard]
  rw [apply_eq_sum, Finset.mul_sum]
  exact Finset.sum_congr rfl fun x _ => by rw [hfactor, mul_comm]

-- The diffuser inverts about the mean.
theorem run_diffuser (hn : 1 ≤ n) : run satisfies (applyDiffuser n) = meanFlip n := by
  have hgates : applyDiffuser (Θ := ℝ) n = hadamards n ++
      ((List.range n).map .x ++ applyMcz n ++ (List.range n).map .x) ++ hadamards n := by
    simp [applyDiffuser, hadamards]
  have hzero : ∀ q < n, (q ∈ List.range n ↔ (Basis.ofNat n 0).bit q = false) := by
    intro q hq
    rw [Basis.bit_ofNat hq, Nat.zero_testBit]
    simp [hq]
  have hsquare : ((√2 : ℝ) : ℂ)⁻¹ ^ n * ((√2 : ℝ) : ℂ)⁻¹ ^ n = (2 ^ n)⁻¹ := by
    rw [← mul_pow, ← sq, inv_sqrt_two_sq, one_div, inv_pow]
  refine LinearMap.ext fun ψ => funext fun y => ?_
  -- The sign of the zero state is a multiple of that state.
  have hsplit : (phaseFlip fun y : Basis n => y = Basis.ofNat n 0)
      (run satisfies (hadamards n) ψ) =
      run satisfies (hadamards n) ψ -
        (2 * run satisfies (hadamards n) ψ (Basis.ofNat n 0)) • ket (Basis.ofNat n 0) := by
    funext x
    rw [phaseFlip_apply]
    by_cases hx : x = Basis.ofNat n 0
    · subst hx
      simp [ket_self]
      ring
    · simp [hx, ket_of_ne hx]
  have hback : run satisfies (hadamards n) (run satisfies (hadamards n) ψ) = ψ := by
    rw [← Module.End.mul_apply, hadamards_hadamards, Module.End.one_apply]
  rw [hgates, run_append_mul, run_append_mul, run_conjugated hn List.nodup_range,
    Module.End.mul_apply, Module.End.mul_apply]
  simp only [all_flipAll hzero]
  rw [hsplit, map_sub, map_smul, hback, run_hadamards_zero, run_hadamards_apply_zero,
    meanFlip_apply, Pi.sub_apply, Pi.smul_apply, smul_eq_mul, uniform]
  linear_combination (-2 * ∑ x, ψ x) * hsquare

end gates

end QuantumPlatform.Core
