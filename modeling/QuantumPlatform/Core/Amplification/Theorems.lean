import QuantumPlatform.Core.Amplification

namespace QuantumPlatform.Core

open Quantum

noncomputable section

variable {n : ℕ} {states : List String}

-- The states that the problem marks, as a set of outcomes.
def isMarked (states : List String) (y : Basis n) : Bool := stateKey y ∈ states

theorem markedCount_eq_card (hvalid : ∀ state ∈ states, validState n state = true) :
    @markedCount n (isMarked states) = states.toFinset.card := by
  rw [markedCount]
  refine Finset.card_nbij' stateKey (stateBasis n) ?_ ?_ ?_ ?_
  · intro y hy
    simpa [isMarked] using hy
  · intro state hstate
    have hmem := List.mem_toFinset.mp hstate
    have hkey := stateKey_stateBasis (hvalid state hmem)
    simpa [isMarked, hkey] using hmem
  · intro y hy
    have hmem : stateKey y ∈ states := by simpa [isMarked] using hy
    exact stateKey_injective (stateKey_stateBasis (hvalid _ hmem))
  · intro state hstate
    exact stateKey_stateBasis (hvalid state (List.mem_toFinset.mp hstate))

theorem markedCount_states (hdistinct : states.Nodup)
    (hvalid : ∀ state ∈ states, validState n state = true) :
    @markedCount n (isMarked states) = states.length := by
  rw [markedCount_eq_card hvalid, List.toFinset_card_of_nodup hdistinct]

section circuit

variable {satisfies : String → List String → Basis n → Bool}

def round (states : List String) (n : ℕ) : List (Gate ℝ) := applyOracle states n ++ applyDiffuser n

theorem run_round (hn : 1 ≤ n) (hdistinct : states.Nodup)
    (hvalid : ∀ state ∈ states, validState n state = true) :
    run satisfies (round states n) = meanFlip n * phaseFlip (isMarked states) := by
  have hodd : ∀ y : Basis n, decide (states.count (stateKey y) % 2 = 1) = isMarked states y := by
    intro y
    unfold isMarked
    rw [hdistinct.count]
    by_cases hmem : stateKey y ∈ states
    · simp [hmem]
    · simp [hmem]
  rw [round, run_append_mul, run_oracle hn states hvalid, run_diffuser hn]
  simp only [hodd]

theorem measured_mcz : measured n (applyMcz n) = [] := by
  unfold applyMcz
  by_cases hone : n = 1
  · rw [if_pos hone]
    rfl
  · rw [if_neg hone]
    rfl

theorem measured_round : measured n (round states n) = [] := by
  have hxs : ∀ qubits : List ℕ, measured n (qubits.map .x) = [] := measured_map fun _ => rfl
  have hhs : ∀ qubits : List ℕ, measured n (qubits.map .h) = [] := measured_map fun _ => rfl
  have horacle : measured n (applyOracle states n) = [] := by
    induction states with
    | nil => rfl
    | cons state rest ih =>
        have hcons : applyOracle (Θ := ℝ) (state :: rest) n =
            ((zeroBits state).map .x ++ applyMcz n ++ (zeroBits state).map .x) ++
              applyOracle rest n := rfl
        rw [hcons]
        simp only [measured_append, hxs, measured_mcz, ih, List.append_nil]
  unfold round applyDiffuser
  simp only [measured_append, horacle, hxs, hhs, measured_mcz, List.append_nil]

theorem measured_rounds (r : ℕ) :
    measured n (List.replicate r (round states n)).flatten = [] := by
  induction r with
  | zero => rfl
  | succ r ih =>
      rw [List.replicate_succ, List.flatten_cons, measured_append, measured_round, ih,
        List.append_nil]

end circuit

def groverGates (states : List String) (n r : ℕ) : List (Gate ℝ) :=
  hadamards n ++ (List.replicate r (round states n)).flatten ++ [.measureAll]

theorem buildGroverCircuit_ok (problem : GroverProblem) (hn : 1 ≤ problem.numQubits) (r : ℕ) :
    buildGroverCircuit problem r = .ok ⟨"grover", problem.numQubits,
      groverGates problem.markedStates problem.numQubits r⟩ := by
  have haddressable : addressable problem.numQubits = .ok () := by
    unfold addressable
    rw [if_neg (by omega)]
  unfold buildGroverCircuit
  simp only [haddressable]
  rfl

theorem countsKey_grover (r : ℕ) (y : Basis n) :
    countsKey (measured n (groverGates states n r)) y = stateKey y := by
  have hhs : measured n (hadamards n) = [] := measured_map (fun _ => rfl) _
  refine countsKey_measureAll ?_ y
  rw [measured_append, hhs, measured_rounds]
  rfl

theorem run_grover {satisfies : String → List String → Basis n → Bool} (hn : 1 ≤ n)
    (hdistinct : states.Nodup) (hvalid : ∀ state ∈ states, validState n state = true) (r : ℕ) :
    run satisfies (groverGates states n r) (ket (Basis.ofNat n 0)) =
      ((meanFlip n * phaseFlip (isMarked states) : Operator n) ^ r) (uniform n) := by
  have hmeasure : run satisfies [.measureAll] = 1 := rfl
  unfold groverGates
  rw [run_append, run_append, run_hadamards_zero, run_rounds, run_round hn hdistinct hvalid,
    hmeasure, Module.End.one_apply]

-- Grover amplification: r rounds turn the state by 2 r times the angle of the marked share.
theorem grover_amplification (problem : GroverProblem) (hn : 1 ≤ problem.numQubits)
    (hdistinct : problem.markedStates.Nodup) (r : ℕ)
    (satisfies : String → List String → Basis problem.numQubits → Bool) (θ : ℝ)
    (hθ : Real.sin θ ^ 2 = problem.markedStates.length / 2 ^ problem.numQubits) :
    ∃ qc, buildGroverCircuit problem r = .ok qc ∧ qc.numQubits = problem.numQubits ∧
      probability satisfies qc.gates (fun key => key ∈ problem.markedStates) =
        Real.sin ((2 * r + 1) * θ) ^ 2 ∧
      ∀ state ∈ problem.markedStates, probability satisfies qc.gates (fun key => key = state) =
        Real.sin ((2 * r + 1) * θ) ^ 2 / problem.markedStates.length := by
  have hcount := markedCount_states hdistinct problem.valid
  rw [← hcount] at hθ
  refine ⟨_, buildGroverCircuit_ok problem hn r, rfl, ?_, ?_⟩
  · have hevent : ∀ y : Basis problem.numQubits,
        countsKey (measured problem.numQubits
          (groverGates problem.markedStates problem.numQubits r)) y ∈ problem.markedStates ↔
        isMarked problem.markedStates y = true := by
      intro y
      rw [countsKey_grover, isMarked, decide_eq_true_eq]
    have hpositive : (problem.markedStates.length : ℝ) ≠ 0 := by
      exact_mod_cast fun h => problem.nonempty (List.length_eq_zero_iff.mp h)
    rw [probability_eq_sum hevent, run_grover hn hdistinct problem.valid, ← Finset.sum_filter]
    rw [Finset.sum_congr rfl fun y hy => normSq_rounds hθ r (Finset.mem_filter.mp hy).2,
      Finset.sum_const, nsmul_eq_mul]
    change (markedCount (isMarked problem.markedStates) : ℝ) * _ = _
    rw [hcount]
    field_simp
  · intro state hstate
    have hvalid := problem.valid state hstate
    have hevent : ∀ y : Basis problem.numQubits,
        countsKey (measured problem.numQubits
          (groverGates problem.markedStates problem.numQubits r)) y = state ↔
        y = stateBasis problem.numQubits state := by
      intro y
      rw [countsKey_grover, stateKey_eq_iff hvalid]
    have hmarked : isMarked problem.markedStates (stateBasis problem.numQubits state) = true := by
      rw [isMarked, stateKey_stateBasis hvalid, decide_eq_true_eq]
      exact hstate
    rw [probability_eq_sum hevent, run_grover hn hdistinct problem.valid,
      Finset.sum_ite_eq' Finset.univ, if_pos (Finset.mem_univ _), normSq_rounds hθ r hmarked, hcount]

-- Two marked states of eight are a quarter, an angle of 30 degrees: one round finds one of them
-- for certain, and each in half of the cases.
theorem grover_amplification_quarter : ∃ problem : GroverProblem,
    GroverProblem.new 3 ["011", "101"] = .ok problem ∧
    ∃ qc, buildGroverCircuit problem 1 = .ok qc ∧
      @probability 3 (fun _ _ _ => false) qc.gates (fun key => key ∈ ["011", "101"]) = 1 ∧
      @probability 3 (fun _ _ _ => false) qc.gates (fun key => key = "011") = 1 / 2 := by
  let problem : GroverProblem := ⟨3, ["011", "101"], by decide, by decide⟩
  have hθ : Real.sin (Real.pi / 6) ^ 2 =
      problem.markedStates.length / 2 ^ problem.numQubits := by
    rw [Real.sin_pi_div_six]
    norm_num [problem]
  obtain ⟨qc, hqc, -, hprobability, heach⟩ := grover_amplification problem (by decide)
    (by decide) 1 (fun _ _ _ => false) (Real.pi / 6) hθ
  have hright : Real.sin ((2 * (1 : ℕ) + 1) * (Real.pi / 6)) = 1 := by
    have hangle : (2 * (1 : ℕ) + 1) * (Real.pi / 6) = Real.pi / 2 := by
      push_cast
      ring
    rw [hangle, Real.sin_pi_div_two]
  rw [hright, one_pow] at hprobability heach
  refine ⟨problem, rfl, qc, hqc, hprobability, ?_⟩
  exact (heach "011" List.mem_cons_self).trans (by norm_num [problem])

end

end QuantumPlatform.Core
