import QuantumPlatform.Api.Schemas
import QuantumPlatform.Indexer.Projection
import QuantumPlatform.Orchestrator.Execution.Evidence

namespace QuantumPlatform

open Process Python Orchestrator QuantumPlatform.Core
open Indexer (qpeResult vqeResult)

-- The task that submit_experiment queues for a request.
def Api.ExperimentRequest.task (request : Api.ExperimentRequest) (experimentId : Json) :
    ExperimentTask :=
  ⟨experimentId, .str request.algorithm.value, request.modelDump⟩

def Api.SatGroverRequest.problem (request : Api.SatGroverRequest) : BooleanSearchProblem :=
  ⟨request.variableNames, request.expression⟩

-- What the result of a request says, and that its numbers were counted for the circuits of
-- this request. `events` is what the worker did for it.
inductive Fulfils (externals : Externals) (events : List (Event sig)) :
    Api.ExperimentRequest → Json → Prop where
  | grover (request : Api.GroverRequest) {problem : GroverProblem} {iterations : ℕ}
      {qc : QuantumCircuit ℚ} {counts : Option (Dict String Int)}
      (searched : problem.markedStates = request.markedStates)
      (chosen : optimalIterations problem.numQubits request.markedStates.length = .ok iterations)
      (built : buildGroverCircuit problem iterations = .ok qc)
      (counted : CountsFrom events ⟨"grover", problem.numQubits, qc, .int request.shots⟩ counts) :
      Fulfils externals events (.grover request)
        (.obj [("marked_states", .arr (request.markedStates.map .str)),
          ("iterations", .int iterations), ("counts", countsJson counts)])
  | unsatisfiable (request : Api.SatGroverRequest)
      (checked : request.problem.countSolutions (fun text assignment =>
        ofOrdinary (externals.evalBooleanExpression text assignment)) = .ok []) :
      Fulfils externals events (.satGrover request)
        (.obj [("expression", .str request.expression), ("solutions", .arr []), ("counts", .null),
          ("note", .str "no satisfying assignment exists -- nothing to search for")])
  | satGrover (request : Api.SatGroverRequest) {solutions : List String} {iterations : ℕ}
      {qc : QuantumCircuit ℚ} {counts : Option (Dict String Int)}
      (checked : request.problem.countSolutions (fun text assignment =>
        ofOrdinary (externals.evalBooleanExpression text assignment)) = .ok solutions)
      (chosen : optimalIterations request.variableNames.length solutions.length = .ok iterations)
      (built : buildSatGroverCircuit request.problem iterations (fun text order =>
        ofOrdinary (externals.phaseOracleGate text order)) = .ok qc)
      (counted : CountsFrom events
        ⟨"sat-grover", request.variableNames.length, qc, .int request.shots⟩ counts) :
      Fulfils externals events (.satGrover request)
        (.obj [("expression", .str request.expression),
          ("solutions", .arr ((solutions.mergeSort fun first second =>
            decide (first ≤ second)).map .str)),
          ("iterations", .int iterations), ("counts", countsJson counts)])
  | qpe (request : Api.QPERequest) {t : ℕ} {counts : Option (Dict String Int)} {results : Json}
      (resolved : request.numCountingQubits = t)
      (counted : CountsFrom events
        ⟨"qpe", t + 1, buildQpeCircuit mathPi ⟨2 * mathPi * request.phi⟩ t, .int request.shots⟩
        counts)
      (estimated : estimates t counts = .ok results) :
      Fulfils externals events (.qpe request) (qpeResult request.phi t results)
  | vqe (request : Api.VQERequest) {molecule : MolecularHamiltonian} {summary : VQEResult}
      (found : getMolecule (fun known => ofOrdinary (externals.generateMolecule known))
        request.molecule = .ok molecule)
      (optimized : HistoryFrom events (.int request.shots) molecule
        (externals.minimize (.int request.maxIterations)
          (List.replicate (parameterCount molecule.numQubits) 0))
        0 summary.history summary.optimalParams summary.electronicEnergy)
      (total : summary.totalEnergy = summary.electronicEnergy + molecule.totalEnergyOffset) :
      Fulfils externals events (.vqe request) (vqeResult molecule summary)

section execution

variable (env : Env) (experimentId : Json)

theorem asStrings_map (texts : List String) : asStrings (.arr (texts.map .str)) = .ok texts := by
  change (texts.map Json.str).mapM asStr = _
  rw [List.mapM_map]
  exact (mapM_eq_map fun _ _ => rfl).trans (congrArg Except.ok (List.map_id texts))

-- The worker unpacks what the request has validated: every field is there, under the key and
-- with the type that it looks for.
theorem executeTask_grover (request : Api.GroverRequest) :
    executeTask env ((Api.ExperimentRequest.grover request).task experimentId) =
      runGrover env request.markedStates (.int request.shots) := by
  change (Py.ofExcept (asStrings (.arr (request.markedStates.map .str))) >>= fun markedStates =>
    runGrover env markedStates (.int request.shots)) = _
  rw [asStrings_map, Py.ofExcept_ok, pure_bind]

theorem executeTask_satGrover (request : Api.SatGroverRequest) :
    executeTask env ((Api.ExperimentRequest.satGrover request).task experimentId) =
      runSatGrover env request.variableNames request.expression (.int request.shots) := by
  change (Py.ofExcept (asStrings (.arr (request.variableNames.map .str))) >>= fun variableNames =>
    runSatGrover env variableNames request.expression (.int request.shots)) = _
  rw [asStrings_map, Py.ofExcept_ok, pure_bind]

theorem executeTask_qpe (request : Api.QPERequest) :
    executeTask env ((Api.ExperimentRequest.qpe request).task experimentId) =
      runQpe env request.phi request.numCountingQubits.toNat (.int request.shots) := by
  have hpos : 0 ≤ request.numCountingQubits :=
    Int.le_trans (by decide) request.numCountingQubits_bounds.1
  change (Py.ofExcept (asCount (.int request.numCountingQubits)) >>= fun numCountingQubits =>
    runQpe env request.phi numCountingQubits (.int request.shots)) = _
  rw [asCount, if_pos hpos, Py.ofExcept_ok, pure_bind]

theorem executeTask_vqe (request : Api.VQERequest) :
    executeTask env ((Api.ExperimentRequest.vqe request).task experimentId) =
      runVqeSync env (.int request.shots) (.int request.maxIterations) (.str request.molecule) >>=
        fun (result, history) => do
          publishVqeHistory experimentId history
          return result := rfl

end execution

-- Whatever a worker returns for a request fulfils it.
theorem executeTask_fulfils {env : Env} {request : Api.ExperimentRequest} {experimentId : Json}
    {events : List (Event sig)} {result : Json}
    (h : (executeTask env (request.task experimentId)).run.Returns events (.ok result)) :
    Fulfils env.externals events request result := by
  cases request with
  | grover request =>
      rw [executeTask_grover] at h
      obtain ⟨problem, iterations, qc, counts, hsearched, hchosen, hbuilt, hcounted, rfl⟩ :=
        runGrover_counts h
      exact .grover request hsearched hchosen hbuilt hcounted
  | satGrover request =>
      rw [executeTask_satGrover] at h
      obtain ⟨solutions, hchecked, ⟨rfl, rfl⟩ | ⟨iterations, qc, counts, hchosen, hbuilt, hcounted,
        rfl⟩⟩ := runSatGrover_counts h
      · exact .unsatisfiable request hchecked
      · exact .satGrover request hchecked hchosen hbuilt hcounted
  | qpe request =>
      rw [executeTask_qpe] at h
      obtain ⟨counts, results, hcounted, hestimated, rfl⟩ := runQpe_counts h
      have hpos := request.numCountingQubits_bounds.1
      exact .qpe request (by omega) hcounted hestimated
  | vqe request =>
      rw [executeTask_vqe] at h
      obtain ⟨⟨found, history⟩, first, second, rfl, hran, h⟩ := Py.returns_parts h
      obtain ⟨-, third, fourth, rfl, -, h⟩ := Py.returns_parts h
      obtain ⟨-, hresult⟩ := (Program.returns_ret _ _ _).mp h
      obtain rfl := Except.ok.inj hresult
      obtain ⟨molecule, hmolecule, hran⟩ := Py.returns_ofExcept hran
      obtain ⟨summary, fifth, last, rfl, hvqe, hran⟩ := Py.returns_parts hran
      obtain ⟨-, hpair⟩ := (Program.returns_ret _ _ _).mp hran
      obtain ⟨rfl, rfl⟩ := Prod.mk.inj (Except.ok.inj hpair)
      obtain ⟨later, hhistory, hfrom, htotal⟩ := minimizeCost_history hvqe
      rw [List.nil_append] at hhistory
      subst hhistory
      exact .vqe request hmolecule (hfrom.mono ((List.sublist_append_left fifth last).trans
        (List.sublist_append_left _ _))) htotal

end QuantumPlatform
