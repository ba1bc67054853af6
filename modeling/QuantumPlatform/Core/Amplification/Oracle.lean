import QuantumPlatform.Core.Amplification.Theorems

namespace QuantumPlatform.Core

open Quantum

noncomputable section

variable {n : ℕ} {states : List String}

theorem markedCount_eq_length_iff (hvalid : ∀ state ∈ states, validState n state = true) :
    states.length = @markedCount n (isMarked states) ↔ states.Nodup := by
  rw [markedCount_eq_card hvalid]
  constructor
  · intro h
    exact Multiset.coe_nodup.mp (Multiset.toFinset_card_eq_card_iff_nodup.mp h.symm)
  · intro h
    exact (List.toFinset_card_of_nodup h).symm

-- The sign a basis state gets says how often its bitstring is listed.
theorem run_oracle_ket {satisfies : String → List String → Basis n → Bool} (hn : 1 ≤ n)
    (hvalid : ∀ state ∈ states, validState n state = true) (x : Basis n) :
    run satisfies (applyOracle states n) (ket x) =
      if states.count (stateKey x) % 2 = 1 then -ket x else ket x := by
  rw [run_oracle hn states hvalid]
  funext y
  rw [phaseFlip_apply]
  simp only [decide_eq_true_eq]
  by_cases hy : y = x
  · subst hy
    by_cases hodd : states.count (stateKey y) % 2 = 1
    · simp [hodd]
    · simp [hodd]
  · have hzero : ket x y = 0 := ket_of_ne hy
    by_cases hodd : states.count (stateKey x) % 2 = 1
    · simp [hodd, hzero]
    · simp [hodd, hzero]

-- The oracle marks the listed states, and their number is the length of the list, just
-- when no state is listed twice.
theorem oracle_marks (problem : GroverProblem) (hn : 1 ≤ problem.numQubits)
    (satisfies : String → List String → Basis problem.numQubits → Bool) :
    ((∀ x, run satisfies (applyOracle problem.markedStates problem.numQubits) (ket x) =
        if stateKey x ∈ problem.markedStates then -ket x else ket x) ∧
      problem.markedStates.length =
        markedCount fun x : Basis problem.numQubits => decide (stateKey x ∈ problem.markedStates)) ↔
    problem.markedStates.Nodup := by
  have hlength := markedCount_eq_length_iff problem.valid
  constructor
  · rintro ⟨-, hcount⟩
    exact hlength.mp hcount
  · intro hdistinct
    refine ⟨fun x => ?_, hlength.mpr hdistinct⟩
    rw [run_oracle_ket hn problem.valid, hdistinct.count]
    by_cases hmem : stateKey x ∈ problem.markedStates
    · simp [hmem]
    · simp [hmem]

-- Two of the four states of two qubits.
theorem oracle_marks_two : ∃ problem : GroverProblem,
    GroverProblem.new 2 ["01", "10"] = .ok problem ∧ problem.markedStates.Nodup ∧
    (∀ x : Basis problem.numQubits, run (fun _ _ _ => false)
      (applyOracle problem.markedStates problem.numQubits) (ket x) =
        if stateKey x ∈ problem.markedStates then -ket x else ket x) ∧
    problem.markedStates.length =
      markedCount fun x : Basis problem.numQubits => decide (stateKey x ∈ problem.markedStates) := by
  have hdistinct : ["01", "10"].Nodup := by decide
  exact ⟨⟨2, ["01", "10"], by decide, by decide⟩, rfl, hdistinct,
    (oracle_marks ⟨2, ["01", "10"], by decide, by decide⟩ (by decide) _).mpr hdistinct⟩

-- Listed twice, a state is flipped twice and counted twice.
theorem oracle_marks_repeated : ∃ problem : GroverProblem,
    GroverProblem.new 1 ["1", "1"] = .ok problem ∧
    (∃ x : Basis problem.numQubits, stateKey x ∈ problem.markedStates ∧
      run (fun _ _ _ => false) (applyOracle problem.markedStates problem.numQubits) (ket x) ≠
        -ket x) ∧
    problem.markedStates.length ≠
      markedCount fun x : Basis problem.numQubits => decide (stateKey x ∈ problem.markedStates) := by
  have hvalid : ∀ state ∈ ["1", "1"], validState 1 state = true := by decide
  have hkey : stateKey (stateBasis 1 "1") = "1" := stateKey_stateBasis (by decide)
  refine ⟨⟨1, ["1", "1"], by decide, hvalid⟩, rfl, ⟨stateBasis 1 "1", ?_, ?_⟩, ?_⟩
  · rw [hkey]
    exact List.mem_cons_self
  · intro h
    rw [run_oracle_ket (le_refl 1) hvalid, hkey, if_neg (by decide)] at h
    have hvalue := congrFun h (stateBasis 1 "1")
    rw [Pi.neg_apply, ket_self] at hvalue
    norm_num at hvalue
  · intro h
    have hdistinct := (markedCount_eq_length_iff hvalid).mp h
    exact absurd hdistinct (by decide)

end

end QuantumPlatform.Core
