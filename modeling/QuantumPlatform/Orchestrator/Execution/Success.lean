import QuantumPlatform.Core.Amplification.Success
import QuantumPlatform.Orchestrator.Execution.Search
import QuantumPlatform.Orchestrator.Protection

namespace QuantumPlatform.Orchestrator

open Process Python Quantum QuantumPlatform.Core BooleanSearchProblem

section grover

variable (env : Env)

-- The first thing a Grover task does is to submit its circuit.
theorem firstCircuit_runGrover {markedStates : List String} {shots : Json} {numQubits R : ℕ}
    {problem : GroverProblem} {qc : QuantumCircuit ℚ}
    (hlength : ∃ first ∈ markedStates.head?, first.length = numQubits)
    (hproblem : GroverProblem.new numQubits markedStates = .ok problem)
    (hiterations : optimalIterations problem.numQubits problem.markedStates.length = .ok R)
    (hqc : buildGroverCircuit problem R = .ok qc) :
    firstCircuit (runGrover env markedStates shots).run = some ⟨"grover", numQubits, qc, shots⟩ := by
  obtain ⟨first, hfirst, rfl⟩ := hlength
  cases markedStates with
  | nil => cases hfirst
  | cons head rest =>
      obtain rfl : head = first := Option.some.inj hfirst
      simp only [runGrover, Py.ofExcept_ok, pure_bind, hproblem, hiterations, hqc]
      rfl

theorem new_ok {numQubits : ℕ} {markedStates : List String} (hne : markedStates ≠ [])
    (hvalid : ∀ state ∈ markedStates, validState numQubits state = true) :
    GroverProblem.new numQubits markedStates = .ok ⟨numQubits, markedStates, hne, hvalid⟩ := by
  have hnone : markedStates.find? (fun state => !validState numQubits state) = none := by
    refine List.find?_eq_none.mpr fun state hstate => ?_
    simp [hvalid state hstate]
  unfold GroverProblem.new
  rw [dif_neg hne]
  split
  · next state hfound =>
      rw [hnone] at hfound
      cases hfound
  · rfl

-- A Grover task searches well: the circuit that it submits finds a marked state unless too
-- many are marked.
theorem runGrover_finds {numQubits : ℕ} (hn : 1 ≤ numQubits) {markedStates : List String}
    (hne : markedStates ≠ []) (hdistinct : markedStates.Nodup)
    (hvalid : ∀ state ∈ markedStates, validState numQubits state = true) (shots : Json)
    (satisfies : String → List String → Basis numQubits → Bool) :
    ∃ R, optimalIterations numQubits markedStates.length = .ok R ∧
      ∃ (qc : QuantumCircuit ℚ) (exact : QuantumCircuit ℝ),
        firstCircuit (runGrover env markedStates shots).run =
          some ⟨"grover", numQubits, qc, shots⟩ ∧
        buildGroverCircuit ⟨numQubits, markedStates, hne, hvalid⟩ R = .ok qc ∧
        buildGroverCircuit ⟨numQubits, markedStates, hne, hvalid⟩ R = .ok exact ∧
        Likely numQubits markedStates.length
          (probability satisfies exact.gates fun key => key ∈ markedStates) := by
  let problem : GroverProblem := ⟨numQubits, markedStates, hne, hvalid⟩
  obtain ⟨R, hR, exact, hexact, hlikely⟩ := likely_markedStates problem hn hdistinct satisfies
  have haddressable : addressable numQubits = .ok () := by
    unfold addressable
    rw [if_neg (by omega)]
  have hqc : ∃ qc : QuantumCircuit ℚ, buildGroverCircuit problem R = .ok qc := by
    unfold buildGroverCircuit
    simp only [problem, haddressable]
    exact ⟨_, rfl⟩
  obtain ⟨qc, hqc⟩ := hqc
  have hlength : ∃ first ∈ markedStates.head?, first.length = numQubits := by
    obtain ⟨first, rest, rfl⟩ := List.exists_cons_of_ne_nil hne
    have hfirst := hvalid first List.mem_cons_self
    unfold validState at hfirst
    rw [Bool.and_eq_true, decide_eq_true_eq] at hfirst
    exact ⟨first, rfl, hfirst.1⟩
  exact ⟨R, hR, qc, exact, firstCircuit_runGrover env hlength (new_ok hne hvalid) hR hqc, hqc,
    hexact, hlikely⟩

-- Two marked states of eight.
theorem runGrover_finds_two : ∃ R, optimalIterations 3 2 = .ok R ∧
    ∃ exact : QuantumCircuit ℝ,
      buildGroverCircuit ⟨3, ["101", "010"], by decide, by decide⟩ R = .ok exact ∧
      Likely 3 2 (@probability 3 (fun _ _ _ => false) exact.gates
        fun key => key ∈ ["101", "010"]) := by
  obtain ⟨R, hR, qc, exact, -, -, hexact, hlikely⟩ := @runGrover_finds ⟨{}, default, 1⟩ 3
    (by decide) ["101", "010"] (by decide) (by decide) (by decide) (.int 1024) fun _ _ _ => false
  exact ⟨R, hR, exact, hexact, hlikely⟩

end grover

section sat

-- A SAT task searches well whatever the expression is: the classical count, the order of the
-- qubits in the oracle and the reading of the measured strings fit together.
theorem runSatGrover_finds (unicode : Unicode)
    (elsewhere : String → Dict String Bool → Except Ordinary Bool) {variableNames : List String}
    (hdistinct : variableNames.Nodup) {tree : Expression}
    (hnames : ∀ name ∈ tree.names, name ∈ variableNames) {expression : String}
    (hwritten : Written unicode tree expression)
    (hsome : ∃ assignment, tree.value assignment = true) (env : Env) (shots : Json)
    (haccepts : env.externals.phaseOracleGate expression variableNames = .ok ())
    (satisfies : String → List String → Basis variableNames.length → Bool)
    (horacle : OracleMeans variableNames expression tree satisfies) :
    ∃ solutions, (BooleanSearchProblem.mk variableNames expression).countSolutions
        (fun text assignment => ofOrdinary
          (evalBooleanExpression unicode elsewhere text assignment)) = .ok solutions ∧
      ∃ R, optimalIterations variableNames.length solutions.length = .ok R ∧
        ∃ (qc : QuantumCircuit ℚ) (exact : QuantumCircuit ℝ),
          firstCircuit (runSatGrover (env.evaluating unicode elsewhere) variableNames expression
            shots).run = some ⟨"sat-grover", variableNames.length, qc, shots⟩ ∧
          buildSatGroverCircuit ⟨variableNames, expression⟩ R (fun text order =>
            ofOrdinary (env.externals.phaseOracleGate text order)) = .ok qc ∧
          buildSatGroverCircuit ⟨variableNames, expression⟩ R (fun text order =>
            ofOrdinary (env.externals.phaseOracleGate text order)) = .ok exact ∧
          Likely variableNames.length solutions.length (probability satisfies exact.gates
            fun key => ∃ assignment, tree.value assignment = true ∧
              Encodes variableNames assignment key) := by
  have hrow : ∀ bits, bits.length = variableNames.length →
      ofOrdinary (evalBooleanExpression unicode elsewhere expression (assigned variableNames bits)) =
        .ok (tree.value fun name => (assigned variableNames bits).get name false) := by
    intro bits hlength
    rw [evalBooleanExpression_written hwritten fun name hmem => by
      rw [keys_assigned hdistinct hlength]
      exact hnames name hmem]
    rfl
  have hsolutions := @countSolutions_eq variableNames tree
    (fun text assignment => ofOrdinary (evalBooleanExpression unicode elsewhere text assignment))
    expression hrow
  obtain ⟨R, hpos, hR, hlikely⟩ :=
    likely_solutions hdistinct hnames hsome satisfies horacle
  obtain ⟨name, hname⟩ := exists_name tree
  have hn : 1 ≤ variableNames.length := List.length_pos_of_mem (hnames name hname)
  have hgate : ofOrdinary (env.externals.phaseOracleGate expression variableNames) = .ok () := by
    rw [haccepts]
    rfl
  have hexact := @buildSatGroverCircuit_ok variableNames expression
    (fun text order => ofOrdinary (env.externals.phaseOracleGate text order)) hgate hn R
  have haddressable : addressable variableNames.length = .ok () := by
    unfold addressable
    rw [if_neg (by omega)]
  have hqc : ∃ qc : QuantumCircuit ℚ, buildSatGroverCircuit ⟨variableNames, expression⟩ R
      (fun text order => ofOrdinary (env.externals.phaseOracleGate text order)) = .ok qc := by
    unfold buildSatGroverCircuit BooleanSearchProblem.numQubits
    simp only [hgate, haddressable]
    exact ⟨_, rfl⟩
  obtain ⟨qc, hqc⟩ := hqc
  have hne : (satisfying variableNames tree).map bitstring ≠ [] := by
    obtain ⟨assignment, hvalue⟩ := hsome
    obtain ⟨text, htext, -⟩ := (mem_solutions hdistinct hnames assignment).mp hvalue
    exact List.ne_nil_of_mem htext
  refine ⟨_, hsolutions, R, hR, qc, _, ?_, hqc, hexact, hlikely⟩
  have hcounted : (BooleanSearchProblem.mk variableNames expression).countSolutions
      (fun text assignment => ofOrdinary
        ((env.evaluating unicode elsewhere).externals.evalBooleanExpression text assignment)) =
      .ok ((satisfying variableNames tree).map bitstring) := hsolutions
  have hbuilt : buildSatGroverCircuit ⟨variableNames, expression⟩ R (fun text order => ofOrdinary
      ((env.evaluating unicode elsewhere).externals.phaseOracleGate text order)) = .ok qc := hqc
  have hcount : optimalIterations (BooleanSearchProblem.mk variableNames expression).numQubits
      ((satisfying variableNames tree).map bitstring).length = .ok R := hR
  simp only [runSatGrover, hcounted, Py.ofExcept_ok, pure_bind, if_neg hne, hcount, if_neg hpos,
    hbuilt]
  rfl

-- The expression `x&y`: one of the four assignments is searched for, with one round.
theorem runSatGrover_finds_both : ∃ (qc : QuantumCircuit ℚ) (exact : QuantumCircuit ℝ),
    firstCircuit (runSatGrover (Env.evaluating
      ⟨{}, { (default : Externals) with phaseOracleGate := fun _ _ => .ok () }, 1⟩
      ⟨fun _ => false, id⟩ fun _ _ => .ok true) ["x", "y"] "x&y" (.int 1024)).run =
        some ⟨"sat-grover", 2, qc, .int 1024⟩ ∧
    buildSatGroverCircuit ⟨["x", "y"], "x&y"⟩ 1 (fun _ _ => .ok ()) = .ok qc ∧
    buildSatGroverCircuit ⟨["x", "y"], "x&y"⟩ 1 (fun _ _ => .ok ()) = .ok exact ∧
    Likely 2 1 (@probability 2 (fun _ _ y => y.bit 0 && y.bit 1) exact.gates fun key =>
      ∃ assignment, (assignment "x" && assignment "y") = true ∧
        Encodes ["x", "y"] assignment key) := by
  let unicode : Unicode := ⟨fun _ => false, id⟩
  let env : Env := ⟨{}, { (default : Externals) with phaseOracleGate := fun _ _ => .ok () }, 1⟩
  let both : Expression := .binary .and (.atom "x") (.atom "y")
  have hx : unicode.readName "x" = some "x" := rfl
  have hy : unicode.readName "y" = some "y" := rfl
  have hnext : ∀ char ∈ ['&', 'y'].head?, nameChar char = false := by
    intro char hchar
    obtain rfl : '&' = char := Option.some.inj hchar
    rfl
  have hlast : ∀ char ∈ ([] : List Char).head?, nameChar char = false :=
    fun _ hchar => nomatch hchar
  have hwritten : Written unicode both "x&y" :=
    ⟨[.atom "x", .binary .and, .atom "y"],
      .tighter (.tighter (.binary Connective.and (.tighter (.atom "x")) (.atom "y"))),
      .name hx hnext (.symbol rfl (.name hy hlast .nil))⟩
  have hcounted : (BooleanSearchProblem.mk ["x", "y"] "x&y").countSolutions (fun text assignment =>
      ofOrdinary (evalBooleanExpression unicode (fun _ _ => .ok true) text assignment)) =
        .ok ["11"] := rfl
  have hround : optimalIterations 2 1 = .ok 1 := by decide +kernel
  obtain ⟨solutions, hsolutions, R, hR, qc, exact, hfirst, hqc, hexact, hlikely⟩ :=
    @runSatGrover_finds unicode (fun _ _ => .ok true) ["x", "y"] (by decide) both (by decide) "x&y"
      hwritten ⟨fun _ => true, rfl⟩ env (.int 1024) rfl (fun _ _ y => y.bit 0 && y.bit 1)
      fun _ => rfl
  obtain rfl : ["11"] = solutions := Except.ok.inj (hcounted.symm.trans hsolutions)
  obtain rfl : 1 = R := Except.ok.inj (hround.symm.trans hR)
  exact ⟨qc, exact, hfirst, hqc, hexact, hlikely⟩

end sat

end QuantumPlatform.Orchestrator
