import QuantumPlatform.Core.Amplification.Theorems
import QuantumPlatform.Core.Iterations
import QuantumPlatform.Core.Satisfiability

namespace QuantumPlatform.Core

open Python Quantum

noncomputable section

section count

variable {numQubits numMarked : ℕ}

-- A search that mostly finds something: it misses with at most twice the marked share, and
-- with at most an even chance while no more than half is marked.
structure Likely (numQubits numMarked : ℕ) (probability : ℝ) : Prop where
  misses : 1 - 2 * (numMarked / 2 ^ numQubits) - 1 / 10 ^ 30 ≤ probability
  even : 2 * numMarked ≤ 2 ^ numQubits → 1 / 2 - 1 / 10 ^ 30 ≤ probability

theorem mathPi_near : (mathPi : ℝ) ≤ Real.pi ∧ Real.pi - mathPi ≤ 1 / 10 ^ 15 := by
  have hlower := Real.pi_gt_d20
  have hupper := Real.pi_lt_d20
  have hbelow : (mathPi : ℝ) ≤ 3.1415926535897932 := by norm_num [mathPi]
  have habove : (3.141592653589793 : ℝ) ≤ mathPi := by norm_num [mathPi]
  refine ⟨by linarith, ?_⟩
  have hpower : (1 : ℝ) / 10 ^ 15 = 0.000000000000001 := by norm_num
  rw [hpower]
  linarith

theorem sin_markedAngle_sq (hle : numMarked ≤ 2 ^ numQubits) :
    Real.sin (markedAngle numQubits numMarked) ^ 2 = numMarked / 2 ^ numQubits := by
  rw [sin_markedAngle hle, Real.sq_sqrt (by positivity)]

theorem inv_sin_markedAngle (hle : numMarked ≤ 2 ^ numQubits) :
    √((2 : ℝ) ^ numQubits / numMarked) = (Real.sin (markedAngle numQubits numMarked))⁻¹ := by
  rw [sin_markedAngle hle, ← Real.sqrt_inv, inv_div]

-- The double of pi costs nothing that one could notice.
theorem iterations_likely (hmarked : 1 ≤ numMarked) (hle : numMarked ≤ 2 ^ numQubits) :
    ∃ R, optimalIterations numQubits numMarked = .ok R ∧ R ≠ 0 ∧
      Likely numQubits numMarked (success (markedAngle numQubits numMarked) R) := by
  let θ := markedAngle numQubits numMarked
  let share : ℝ := numMarked / 2 ^ numQubits
  obtain ⟨hpi, hnear⟩ := mathPi_near
  have hthree : (3 : ℝ) ≤ mathPi := by norm_num [mathPi]
  have hfour : (mathPi : ℝ) < 4 := by norm_num [mathPi]
  have hθ : 0 < θ := markedAngle_pos hmarked
  have hsquare : Real.sin θ ^ 2 = share := sin_markedAngle_sq hle
  have hsin : 0 < Real.sin θ := by
    rw [show Real.sin θ = _ from sin_markedAngle hle]
    exact share_pos hmarked
  have hpower : (0 : ℝ) < 2 ^ numQubits := by positivity
  have hcast : ((2 ^ numQubits : ℕ) : ℝ) = 2 ^ numQubits := by push_cast; rfl
  have htiny : (0 : ℝ) < 1 / 10 ^ 30 := by positivity
  refine ⟨max 1 ⌊(mathPi : ℝ) / 4 * (Real.sin θ)⁻¹⌋₊, ?_, by omega, ?_⟩
  · rw [optimalIterations_eq, iterations, if_neg (by omega), inv_sin_markedAngle hle]
  change Likely numQubits numMarked (success θ _)
  by_cases hfew : 4 * numMarked ≤ 2 ^ numQubits
  · -- at most a quarter: the approximation of the angle
    have hquarter : share ≤ 1 / 4 := by
      have hfew' : (4 : ℝ) * numMarked ≤ 2 ^ numQubits := by
        rw [← hcast]
        exact_mod_cast hfew
      rw [div_le_iff₀ hpower]
      linarith
    have hhalf : Real.sin θ ≤ 1 / 2 := by
      refine le_of_sq_le_sq ?_ (by norm_num)
      rw [hsquare]
      linarith
    have hsmall : θ ≤ Real.pi / 6 := by
      have hbound := Real.pi_pos
      refine (Real.arcsin_le_iff_le_sin' ⟨by linarith, by linarith⟩).mpr ?_
      rw [Real.sin_pi_div_six, ← sin_markedAngle hle]
      exact hhalf
    have hone : 1 ≤ ⌊(mathPi : ℝ) / 4 * (Real.sin θ)⁻¹⌋₊ := by
      have htwo : 2 ≤ (Real.sin θ)⁻¹ := by
        rw [le_inv_comm₀ (by norm_num) hsin]
        linarith
      refine Nat.one_le_floor_iff _ |>.mpr ?_
      calc (1 : ℝ) ≤ mathPi / 4 * 2 := by linarith
        _ ≤ mathPi / 4 * (Real.sin θ)⁻¹ := mul_le_mul_of_nonneg_left htwo (by linarith)
    have hsucceeds := one_sub_le_success hθ hsmall hpi (by linarith)
    have hcost : (Real.pi - mathPi) ^ 2 / 2 ≤ 1 / 10 ^ 30 := by
      have hsq := pow_le_pow_left₀ (sub_nonneg.mpr hpi) hnear 2
      have hten : ((1 : ℝ) / 10 ^ 15) ^ 2 = 1 / 10 ^ 30 := by norm_num
      rw [hten] at hsq
      linarith
    rw [hsquare] at hsucceeds
    rw [max_eq_right hone]
    constructor
    · linarith
    · intro _
      linarith
  · -- more: a single round
    have hquarter : 1 / 4 < share := by
      have hmany : (2 : ℝ) ^ numQubits < 4 * numMarked := by
        rw [← hcast]
        exact_mod_cast not_le.mp hfew
      rw [lt_div_iff₀ hpower]
      linarith
    have hhalf : 1 / 2 ≤ Real.sin θ := by
      refine le_of_sq_le_sq ?_ hsin.le
      rw [hsquare]
      linarith
    have hfloor : ⌊(mathPi : ℝ) / 4 * (Real.sin θ)⁻¹⌋₊ ≤ 1 := by
      have htwo : (Real.sin θ)⁻¹ ≤ 2 := by
        rw [inv_le_comm₀ hsin (by norm_num)]
        linarith
      refine Nat.lt_succ_iff.mp (Nat.floor_lt' (by norm_num) |>.mpr ?_)
      calc (mathPi : ℝ) / 4 * (Real.sin θ)⁻¹ ≤ mathPi / 4 * 2 :=
            mul_le_mul_of_nonneg_left htwo (by linarith)
        _ < (Nat.succ 1 : ℕ) := by
            push_cast
            linarith
    have hnonneg : 0 ≤ success θ 1 := sq_nonneg _
    have heven : 2 * numMarked ≤ 2 ^ numQubits → 1 / 2 ≤ success θ 1 := by
      intro hhalves
      have hmost : share ≤ 1 / 2 := by
        have hhalves' : (2 : ℝ) * numMarked ≤ 2 ^ numQubits := by
          rw [← hcast]
          exact_mod_cast hhalves
        rw [div_le_iff₀ hpower]
        linarith
      exact half_le_success_one (hsquare ▸ hquarter.le) (hsquare ▸ hmost)
    rw [max_eq_left hfloor]
    constructor
    · by_cases hhalves : 2 * numMarked ≤ 2 ^ numQubits
      · have hfound := heven hhalves
        linarith
      · have hmost : 1 ≤ 2 * share := by
          have hmany : (2 : ℝ) ^ numQubits < 2 * numMarked := by
            rw [← hcast]
            exact_mod_cast not_le.mp hhalves
          rw [← mul_div_assoc, le_div_iff₀ hpower]
          linarith
        linarith
    · intro hhalves
      have hfound := heven hhalves
      linarith

end count

section circuits

variable {n : ℕ} {satisfies : String → List String → Basis n → Bool} {gates : List (Gate ℝ)}
  {event : String → Prop} {marked : Basis n → Bool}

-- What a circuit of rounds is read out as.
theorem probability_marked {r : ℕ} (hrun : run satisfies gates (ket (Basis.ofNat n 0)) =
      ((meanFlip n * phaseFlip marked : Operator n) ^ r) (uniform n))
    (hevent : ∀ y, event (countsKey (measured n gates) y) ↔ marked y = true)
    (hle : markedCount marked ≤ 2 ^ n) (hpos : 1 ≤ markedCount marked) :
    probability satisfies gates event = success (markedAngle n (markedCount marked)) r := by
  have hθ := @sin_markedAngle_sq n (markedCount marked) hle
  have hpositive : (markedCount marked : ℝ) ≠ 0 := by
    exact_mod_cast Nat.one_le_iff_ne_zero.mp hpos
  rw [probability_eq_sum hevent, hrun, ← Finset.sum_filter]
  rw [Finset.sum_congr rfl fun y hy => normSq_rounds hθ r (Finset.mem_filter.mp hy).2,
    Finset.sum_const, nsmul_eq_mul]
  change (markedCount marked : ℝ) * _ = _
  rw [success]
  field_simp

theorem markedCount_le (marked : Basis n → Bool) : markedCount marked ≤ 2 ^ n := by
  rw [← Basis.card (n := n), ← Finset.card_univ]
  exact Finset.card_filter_le _ _

end circuits

-- The built-in count of rounds, on the built circuit.
theorem likely_markedStates (problem : GroverProblem) (hn : 1 ≤ problem.numQubits)
    (hdistinct : problem.markedStates.Nodup)
    (satisfies : String → List String → Basis problem.numQubits → Bool) :
    ∃ R, optimalIterations problem.numQubits problem.markedStates.length = .ok R ∧
      ∃ qc, buildGroverCircuit problem R = .ok qc ∧
        Likely problem.numQubits problem.markedStates.length
          (probability satisfies qc.gates fun key => key ∈ problem.markedStates) := by
  have hcount := markedCount_states hdistinct problem.valid
  have hpos : 1 ≤ problem.markedStates.length := List.length_pos_iff.mpr problem.nonempty
  have hle := @markedCount_le problem.numQubits (isMarked problem.markedStates)
  rw [hcount] at hle
  obtain ⟨R, hR, -, hlikely⟩ := iterations_likely hpos hle
  refine ⟨R, hR, _, buildGroverCircuit_ok problem hn R, ?_⟩
  have hevent : ∀ y : Basis problem.numQubits, countsKey (measured problem.numQubits
      (groverGates problem.markedStates problem.numQubits R)) y ∈ problem.markedStates ↔
      isMarked problem.markedStates y = true := by
    intro y
    rw [countsKey_grover, isMarked, decide_eq_true_eq]
  rw [← hcount] at hpos hle
  rw [probability_marked (run_grover hn hdistinct problem.valid R) hevent hle hpos, hcount]
  exact hlikely

section sat

variable {variableNames : List String} {expression : String} {tree : Expression}

-- What Qiskit's oracle gate makes of an expression: the i-th name of the order is on qubit i.
def OracleMeans (variableNames : List String) (expression : String) (tree : Expression)
    (satisfies : String → List String → Basis variableNames.length → Bool) : Prop :=
  ∀ y, satisfies expression variableNames y =
    tree.value fun name => y.bit (variableNames.idxOf name)

def satGates (variableNames : List String) (expression : String) (r : ℕ) : List (Gate ℝ) :=
  hadamards variableNames.length ++
    (List.replicate r (.phaseOracle expression variableNames ::
      applyDiffuser variableNames.length)).flatten ++ [.measureAll]

theorem buildSatGroverCircuit_ok {phaseOracleGate : String → List String → Except Exc Unit}
    (haccepts : phaseOracleGate expression variableNames = .ok ())
    (hn : 1 ≤ variableNames.length) (r : ℕ) :
    buildSatGroverCircuit ⟨variableNames, expression⟩ r phaseOracleGate =
      .ok ⟨"grover-sat", variableNames.length, satGates variableNames expression r⟩ := by
  have haddressable : addressable variableNames.length = .ok () := by
    unfold addressable
    rw [if_neg (by omega)]
  unfold buildSatGroverCircuit BooleanSearchProblem.numQubits
  simp only [haccepts, haddressable]
  rfl

theorem run_sat {satisfies : String → List String → Basis variableNames.length → Bool}
    (hn : 1 ≤ variableNames.length) (r : ℕ) :
    run satisfies (satGates variableNames expression r) (ket (Basis.ofNat _ 0)) =
      ((meanFlip _ * phaseFlip (satisfies expression variableNames) : Operator _) ^ r)
        (uniform _) := by
  have hmeasure : run satisfies [.measureAll] = 1 := rfl
  have hround : run satisfies (.phaseOracle expression variableNames ::
      applyDiffuser variableNames.length) =
      meanFlip _ * phaseFlip (satisfies expression variableNames) := by
    rw [← @run_diffuser _ satisfies hn]
    rfl
  unfold satGates
  rw [run_append, run_append, run_hadamards_zero, run_rounds, hround, hmeasure,
    Module.End.one_apply]

theorem countsKey_sat (r : ℕ) (y : Basis variableNames.length) :
    countsKey (measured variableNames.length (satGates variableNames expression r)) y =
      stateKey y := by
  let n := variableNames.length
  have hhs : measured n (hadamards n) = [] := measured_map (fun _ => rfl) _
  have hxs : measured n ((List.range n).map .x) = [] := measured_map (fun _ => rfl) _
  have hdiffuser : measured n (applyDiffuser n) = [] := by
    have hgates : applyDiffuser n = hadamards n ++ (List.range n).map .x ++ applyMcz n ++
        (List.range n).map .x ++ hadamards n := rfl
    rw [hgates]
    simp only [measured_append, hhs, hxs, measured_mcz, List.append_nil]
  have hround : measured n (.phaseOracle expression variableNames :: applyDiffuser n) = [] :=
    hdiffuser
  have hrounds : measured n (List.replicate r
      (.phaseOracle expression variableNames :: applyDiffuser n)).flatten = [] := by
    induction r with
    | zero => rfl
    | succ r ih =>
        rw [List.replicate_succ, List.flatten_cons, measured_append, hround, ih, List.append_nil]
  refine countsKey_measureAll ?_ y
  rw [measured_append, hhs, hrounds]
  rfl

open BooleanSearchProblem

theorem exists_name (tree : Expression) : ∃ name, name ∈ tree.names := by
  induction tree with
  | atom name => exact ⟨name, List.mem_singleton_self name⟩
  | unary operand ih => exact ih
  | binary op left right ih _ =>
      obtain ⟨name, hname⟩ := ih
      exact ⟨name, List.mem_append_left _ hname⟩

-- A measured string spells the assignment on the qubits.
theorem stateKey_encodes (hdistinct : variableNames.Nodup) (y : Basis variableNames.length) :
    Encodes variableNames (fun name => y.bit (variableNames.idxOf name)) (stateKey y) := by
  have hkey : (stateKey y).toList.reverse =
      (List.range variableNames.length).map fun q => bitChar (y.bit q) := by
    rw [stateKey, countsKey_range, String.toList_ofList, ← List.map_reverse, List.reverse_reverse]
  constructor
  · have hlength := congrArg List.length hkey
    rwa [List.length_reverse, String.length_toList, List.length_map, List.length_range] at hlength
  · intro i name hname
    obtain ⟨hi, rfl⟩ := List.getElem?_eq_some_iff.mp hname
    have hplace := hdistinct.idxOf_getElem i hi
    rw [hkey, List.getElem?_map, List.getElem?_range hi]
    simp only [hplace]
    rfl

theorem validState_of_encodes {assignment : String → Bool} {text : String}
    (h : Encodes variableNames assignment text) :
    validState variableNames.length text = true := by
  obtain ⟨hlength, hchars⟩ := h
  unfold validState
  rw [hlength, decide_eq_true rfl, Bool.true_and]
  refine List.all_eq_true.mpr fun char hchar => ?_
  obtain ⟨i, hi⟩ := List.mem_iff_getElem?.mp (List.mem_reverse.mpr hchar)
  have hbound : i < variableNames.length := by
    obtain ⟨hlt, -⟩ := List.getElem?_eq_some_iff.mp hi
    rwa [List.length_reverse, String.length_toList, hlength] at hlt
  have hsome := hchars i _ (List.getElem?_eq_getElem hbound)
  rw [hi, Option.some_inj] at hsome
  rw [hsome]
  split_ifs
  · rfl
  · rfl

-- What the oracle marks is what the classical check has counted.
theorem marked_iff (hdistinct : variableNames.Nodup)
    (hnames : ∀ name ∈ tree.names, name ∈ variableNames)
    {satisfies : String → List String → Basis variableNames.length → Bool}
    (horacle : OracleMeans variableNames expression tree satisfies)
    (y : Basis variableNames.length) :
    satisfies expression variableNames y =
      isMarked ((satisfying variableNames tree).map bitstring) y := by
  have hkey := stateKey_encodes hdistinct y
  rw [horacle y, Bool.eq_iff_iff, isMarked, decide_eq_true_eq, mem_solutions hdistinct hnames]
  constructor
  · rintro ⟨text, hmem, htext⟩
    rwa [← htext.eq hkey]
  · intro hmem
    exact ⟨stateKey y, hmem, hkey⟩

-- Whatever the number of rounds is taken for, the strings that are found are the solutions.
theorem likely_solutions (hdistinct : variableNames.Nodup)
    (hnames : ∀ name ∈ tree.names, name ∈ variableNames)
    (hsome : ∃ assignment, tree.value assignment = true)
    (satisfies : String → List String → Basis variableNames.length → Bool)
    (horacle : OracleMeans variableNames expression tree satisfies) :
    let solutions := (satisfying variableNames tree).map bitstring
    ∃ R, R ≠ 0 ∧ optimalIterations variableNames.length solutions.length = .ok R ∧
      Likely variableNames.length solutions.length
        (probability satisfies (satGates variableNames expression R) fun key =>
          ∃ assignment, tree.value assignment = true ∧ Encodes variableNames assignment key) := by
  intro solutions
  have hn : 1 ≤ variableNames.length := by
    obtain ⟨name, hname⟩ := exists_name tree
    exact List.length_pos_of_mem (hnames name hname)
  have hvalid : ∀ state ∈ solutions, validState variableNames.length state = true := by
    intro state hstate
    obtain ⟨assignment, hencodes⟩ := encodes_of_mem hdistinct hstate
    exact validState_of_encodes hencodes
  have hcount := markedCount_states (@nodup_solutions variableNames tree) hvalid
  have hpos : 1 ≤ solutions.length := by
    obtain ⟨assignment, hvalue⟩ := hsome
    obtain ⟨text, htext, -⟩ := (mem_solutions hdistinct hnames assignment).mp hvalue
    exact List.length_pos_of_mem htext
  have hle := @markedCount_le variableNames.length (isMarked solutions)
  rw [hcount] at hle
  obtain ⟨R, hR, hone, hlikely⟩ := iterations_likely hpos hle
  refine ⟨R, hone, hR, ?_⟩
  have hmarked : satisfies expression variableNames = isMarked solutions :=
    funext fun y => marked_iff hdistinct hnames horacle y
  have hrun := @run_sat variableNames expression satisfies hn R
  rw [hmarked] at hrun
  have hevent : ∀ y : Basis variableNames.length,
      (∃ assignment, tree.value assignment = true ∧ Encodes variableNames assignment
        (countsKey (measured variableNames.length
          (satGates variableNames expression R)) y)) ↔
      isMarked solutions y = true := by
    intro y
    rw [countsKey_sat, isMarked, decide_eq_true_eq]
    constructor
    · rintro ⟨assignment, hvalue, hencodes⟩
      obtain ⟨text, htext, hspelt⟩ := (mem_solutions hdistinct hnames assignment).mp hvalue
      rwa [← hspelt.eq hencodes]
    · intro hmem
      have hspelt := stateKey_encodes hdistinct y
      exact ⟨_, (mem_solutions hdistinct hnames _).mpr ⟨_, hmem, hspelt⟩, hspelt⟩
  rw [← hcount] at hpos hle
  rw [probability_marked hrun hevent hle hpos, hcount]
  exact hlikely

end sat

end

end QuantumPlatform.Core
