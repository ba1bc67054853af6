import QuantumPlatform.Orchestrator.Log.Theorems

namespace QuantumPlatform.Orchestrator

open Process Python QuantumPlatform.Core

section evidence

variable (events : List (Event sig))

-- The backend took this circuit, and later handed out these counts for it.
def CountsFrom (circuit : Circuit) (counts : Option (Dict String Int)) : Prop :=
  ∃ handle result, result.counts = counts ∧
    ([⟨.submit circuit, .ok handle⟩, ⟨.fetchResult handle, .ok result⟩] : List (Event sig)).Sublist
      events

variable (params : List ℚ) (shots : Json) (molecule : MolecularHamiltonian)

-- An energy added up term by term, each expectation from the counts of its own circuit.
inductive EnergyFrom : List PauliTerm → ℚ → ℚ → Prop where
  | done (total : ℚ) : EnergyFrom [] total total
  | constant {term : PauliTerm} {rest : List PauliTerm} {total energy : ℚ}
      (identity : term.qubits.items = [])
      (added : EnergyFrom rest (total + term.coefficient) energy) :
      EnergyFrom (term :: rest) total energy
  | measured {term : PauliTerm} {rest : List PauliTerm} {total energy expectation : ℚ}
      {qc : QuantumCircuit ℚ} {counts : Dict String Int} (varies : term.qubits.items ≠ [])
      (built : buildMeasurementCircuit params term molecule = .ok qc)
      (counted : CountsFrom events ⟨termName term, molecule.numQubits, qc, shots⟩ (some counts))
      (expected : pauliExpectationFromCounts counts term = .ok expectation)
      (added : EnergyFrom rest (total + term.coefficient * expectation) energy) :
      EnergyFrom (term :: rest) total energy

-- The optimizer asked for these points one after the other, was told their energies, and
-- ended at `x`.
inductive HistoryFrom : Optimizer → ℕ → List VQEIterationLog → List ℚ → ℚ → Prop where
  | finished (number : ℕ) (x : List ℚ) (value : ℚ) :
      HistoryFrom (.finished x value) number [] x value
  | evaluate {params : List ℚ} {next : ℚ → Optimizer} {number : ℕ} {log : VQEIterationLog}
      {history : List VQEIterationLog} {x : List ℚ} {value : ℚ}
      (numbered : log.iteration = number + 1) (asked : log.params = params)
      (measured : EnergyFrom events params shots molecule molecule.terms 0 log.energy)
      (told : HistoryFrom (next log.energy) (number + 1) history x value) :
      HistoryFrom (.evaluate params next) number (log :: history) x value

end evidence

section mono

variable {events more : List (Event sig)} {params : List ℚ} {shots : Json}
  {molecule : MolecularHamiltonian}

theorem CountsFrom.mono {circuit : Circuit} {counts : Option (Dict String Int)}
    (h : CountsFrom events circuit counts) (hmore : events.Sublist more) :
    CountsFrom more circuit counts := by
  obtain ⟨handle, result, hcounts, hevents⟩ := h
  exact ⟨handle, result, hcounts, hevents.trans hmore⟩

theorem EnergyFrom.mono {terms : List PauliTerm} {total energy : ℚ}
    (h : EnergyFrom events params shots molecule terms total energy)
    (hmore : events.Sublist more) :
    EnergyFrom more params shots molecule terms total energy := by
  induction h with
  | done total => exact .done total
  | constant identity _ ih => exact .constant identity ih
  | measured varies built counted expected _ ih =>
      exact .measured varies built (counted.mono hmore) expected ih

theorem HistoryFrom.mono {optimizer : Optimizer} {number : ℕ} {history : List VQEIterationLog}
    {x : List ℚ} {value : ℚ} (h : HistoryFrom events shots molecule optimizer number history x value)
    (hmore : events.Sublist more) :
    HistoryFrom more shots molecule optimizer number history x value := by
  induction h with
  | finished number x value => exact .finished number x value
  | evaluate numbered asked measured _ ih =>
      exact .evaluate numbered asked (measured.mono hmore) ih

end mono

section waiting

variable {log : Log} {handle : JobHandle} {result : ExperimentResult} {events : List (Event sig)}

-- A result comes into the log when it is fetched.
theorem fetched_of_after (op : Effect) (answer : op.Ans)
    (hmem : (handle, result) ∈ (log.after op answer).fetched) :
    (handle, result) ∈ log.fetched ∨
      (⟨op, answer⟩ : Event sig) = ⟨.fetchResult handle, .ok result⟩ := by
  have hkept : (log.after op answer).fetched = log.fetched → (handle, result) ∈ log.fetched :=
    fun hsame => hsame ▸ hmem
  cases op with
  | fetchResult fetched =>
      cases answer with
      | error exc => exact .inl (hkept (Log.raised_fetched log exc))
      | ok found =>
          rcases List.mem_append.mp hmem with hold | hnew
          · exact .inl hold
          · obtain ⟨rfl, rfl⟩ := Prod.mk.inj (List.mem_singleton.mp hnew)
            exact .inr rfl
  | submit circuit =>
      cases answer with
      | error exc => exact .inl (hkept (Log.raised_fetched log exc))
      | ok submitted => exact .inl hmem
  | pollStatus polled =>
      rcases answer with exc | status
      · exact .inl (hkept (Log.raised_fetched log exc))
      · cases status <;> exact .inl hmem
  | cancel cancelled =>
      cases answer with
      | error exc => exact .inl (hkept (Log.raised_fetched log exc))
      | ok _ => exact .inl hmem
  | calibrationGet name => cases answer <;> exact .inl hmem
  | calibrationSave saved => exact .inl (hkept (Log.raisedBy_fetched _ answer))
  | kafkaSend topic payload => exact .inl (hkept (Log.raisedBy_fetched log answer))
  | publish queue message =>
      exact .inl (hkept ((Log.brokenBy_fetched _ answer).trans
        (Log.report_fetched log queue message)))
  | declareQueue name => exact .inl (hkept (Log.brokenBy_fetched log answer))
  | ack => exact .inl (hkept (Log.brokenBy_fetched _ answer))
  | _ => exact .inl hmem

theorem fetched_of_logging (hmem : (handle, result) ∈ (logging.after log events).fetched) :
    (handle, result) ∈ log.fetched ∨
      (⟨.fetchResult handle, .ok result⟩ : Event sig) ∈ events := by
  induction events generalizing log with
  | nil => exact .inl hmem
  | cons event rest ih =>
      rcases ih hmem with hold | hrest
      · rcases fetched_of_after event.1 event.2 hold with hlog | hevent
        · exact .inl hlog
        · exact .inr (List.mem_cons.mpr (.inl hevent.symm))
      · exact .inr (List.mem_cons_of_mem _ hrest)

-- What a wait returns was fetched while it waited.
theorem waitForResult_fetched {fuel : ℕ} {backendName : String} {config : PollingConfig}
    {metrics : Option PollingMetrics} {waiting : Waiting}
    (h : (waitForResult fuel backendName handle config {} false metrics).Returns events
      (.ok result, waiting)) : (⟨.fetchResult handle, .ok result⟩ : Event sig) ∈ events := by
  have hlogs : logging.Obeys (fun later (outcome : Except Exc ExperimentResult × Waiting) =>
      Log.Waited {} handle later outcome.1) {} _ :=
    waitForResult_logs handle config fuel backendName metrics
  have hwaited := (hlogs.trace h (Monitor.admits_all (fun _ _ _ => trivial) _ _)).2
  have hfetched : (handle, result) ∈ (logging.after {} events).fetched := by
    rw [show logging.after {} events = { fetched := [(handle, result)] } from hwaited]
    exact List.mem_singleton_self _
  rcases fetched_of_logging hfetched with hempty | hevent
  · cases hempty
  · exact hevent

theorem waitOnce_fetched {env : Env} {config : PollingConfig}
    (h : (waitOnce env handle config).run.Returns events (.ok result)) :
    (⟨.fetchResult handle, .ok result⟩ : Event sig) ∈ events := by
  rw [waitOnce, Py.run_lift_bind] at h
  obtain ⟨first, ⟨outcome, waiting⟩, second, rfl, hwait, hlast⟩ :=
    (Program.returns_bind _ _ _ _).mp h
  cases outcome with
  | error exc =>
      obtain ⟨-, hraised⟩ := (Program.returns_ret _ _ _).mp hlast
      cases hraised
  | ok found =>
      obtain ⟨-, hsame⟩ := (Program.returns_ret _ _ _).mp hlast
      obtain rfl := Except.ok.inj hsame
      exact List.mem_append_left _ (waitForResult_fetched hwait)

theorem CountsFrom.of_submit {circuit : Circuit} {first second : List (Event sig)}
    (hsubmit : (submit circuit).run.Returns first (.ok handle))
    (hfetched : (⟨.fetchResult handle, .ok result⟩ : Event sig) ∈ second) :
    CountsFrom (first ++ second) circuit result.counts := by
  obtain ⟨answer, rest, rfl, hanswer⟩ := (Program.returns_call _ _ _ _).mp hsubmit
  cases answer with
  | error exc =>
      obtain ⟨-, hraised⟩ := (Program.returns_ret _ _ _).mp hanswer
      cases hraised
  | ok found =>
      obtain ⟨rfl, hsame⟩ := (Program.returns_ret _ _ _).mp hanswer
      obtain rfl := Except.ok.inj hsame
      exact ⟨handle, result, rfl, .cons_cons _ (List.singleton_sublist.mpr hfetched)⟩

end waiting

section results

variable {env : Env} {events : List (Event sig)} {result : Json} {shots : Json}

theorem new_eq {numQubits : ℕ} {markedStates : List String} {problem : GroverProblem}
    (h : GroverProblem.new numQubits markedStates = .ok problem) :
    problem.numQubits = numQubits ∧ problem.markedStates = markedStates := by
  unfold GroverProblem.new at h
  split_ifs at h
  split at h
  · cases h
  · obtain rfl := Except.ok.inj h
    exact ⟨rfl, rfl⟩

-- A circuit is submitted, and what was counted for it comes back.
theorem submitted_parts {α : Type} {circuit : Circuit} {config : PollingConfig}
    {f : ExperimentResult → Py sig α} {returned : α}
    (h : (submit circuit >>= fun handle => waitOnce env handle config >>= f).run.Returns events
      (.ok returned)) :
    ∃ answered first rest, CountsFrom first circuit answered.counts ∧ events = first ++ rest ∧
      (f answered).run.Returns rest (.ok returned) := by
  obtain ⟨handle, first, second, rfl, hsubmit, hwait⟩ := Py.returns_parts h
  obtain ⟨answered, third, rest, rfl, hfetched, hrest⟩ := Py.returns_parts hwait
  exact ⟨answered, first ++ third, rest, .of_submit hsubmit (waitOnce_fetched hfetched),
    (List.append_assoc _ _ _).symm, hrest⟩

theorem runGrover_counts {markedStates : List String}
    (h : (runGrover env markedStates shots).run.Returns events (.ok result)) :
    ∃ (problem : GroverProblem) (iterations : ℕ) (qc : QuantumCircuit ℚ)
      (counts : Option (Dict String Int)), problem.markedStates = markedStates ∧
      optimalIterations problem.numQubits markedStates.length = .ok iterations ∧
      buildGroverCircuit problem iterations = .ok qc ∧
      CountsFrom events ⟨"grover", problem.numQubits, qc, shots⟩ counts ∧
      result = .obj [("marked_states", .arr (markedStates.map .str)),
        ("iterations", .int iterations), ("counts", countsJson counts)] := by
  obtain ⟨numQubits, -, h⟩ := Py.returns_ofExcept h
  obtain ⟨problem, hproblem, h⟩ := Py.returns_ofExcept h
  obtain ⟨iterations, hiterations, h⟩ := Py.returns_ofExcept h
  obtain ⟨qc, hqc, h⟩ := Py.returns_ofExcept h
  obtain ⟨rfl, rfl⟩ := new_eq hproblem
  obtain ⟨answered, first, rest, hcounts, rfl, hlast⟩ := submitted_parts h
  obtain ⟨-, hresult⟩ := (Program.returns_ret _ _ _).mp hlast
  exact ⟨problem, iterations, qc, answered.counts, rfl, hiterations, hqc,
    hcounts.mono (List.sublist_append_left _ _), Except.ok.inj hresult⟩

theorem optimalIterations_pos {numQubits numMarked iterations : ℕ}
    (h : optimalIterations numQubits numMarked = .ok iterations) : iterations ≠ 0 := by
  unfold optimalIterations at h
  split_ifs at h
  have hmax := Except.ok.inj h
  omega

theorem runSatGrover_counts {variableNames : List String} {expression : String}
    (h : (runSatGrover env variableNames expression shots).run.Returns events (.ok result)) :
    ∃ solutions, (BooleanSearchProblem.mk variableNames expression).countSolutions
        (fun text assignment => ofOrdinary
          (env.externals.evalBooleanExpression text assignment)) = .ok solutions ∧
      (solutions = [] ∧ result = .obj [("expression", .str expression), ("solutions", .arr []),
          ("counts", .null),
          ("note", .str "no satisfying assignment exists -- nothing to search for")] ∨
        ∃ (iterations : ℕ) (qc : QuantumCircuit ℚ) (counts : Option (Dict String Int)),
          optimalIterations variableNames.length solutions.length = .ok iterations ∧
          buildSatGroverCircuit ⟨variableNames, expression⟩ iterations (fun text order =>
            ofOrdinary (env.externals.phaseOracleGate text order)) = .ok qc ∧
          CountsFrom events ⟨"sat-grover", variableNames.length, qc, shots⟩ counts ∧
          result = .obj [("expression", .str expression),
            ("solutions", .arr ((solutions.mergeSort fun first second =>
              decide (first ≤ second)).map .str)),
            ("iterations", .int iterations), ("counts", countsJson counts)]) := by
  obtain ⟨solutions, hsolutions, h⟩ := Py.returns_ofExcept h
  obtain ⟨iterations, hiterations, h⟩ := Py.returns_ofExcept h
  refine ⟨solutions, hsolutions, ?_⟩
  split_ifs at hiterations with hempty
  · obtain rfl := Except.ok.inj hiterations
    subst hempty
    obtain ⟨-, hresult⟩ := (Program.returns_ret _ _ _).mp h
    exact .inl ⟨rfl, Except.ok.inj hresult⟩
  · rw [if_neg (optimalIterations_pos hiterations)] at h
    obtain ⟨qc, hqc, h⟩ := Py.returns_ofExcept h
    obtain ⟨answered, first, rest, hcounts, rfl, hlast⟩ := submitted_parts h
    obtain ⟨-, hresult⟩ := (Program.returns_ret _ _ _).mp hlast
    exact .inr ⟨iterations, qc, answered.counts, hiterations, hqc,
      hcounts.mono (List.sublist_append_left _ _), Except.ok.inj hresult⟩

-- The phase estimates of a result, by its counts.
def estimates (numCountingQubits : ℕ) : Option (Dict String Int) → Except Exc Json
  | none => .ok .null
  | some counts =>
      if counts.items = [] then .ok .null
      else Json.obj <$> countsWithEstimates numCountingQubits counts.items

theorem runQpe_counts {phi : ℚ} {numCountingQubits : ℕ}
    (h : (runQpe env phi numCountingQubits shots).run.Returns events (.ok result)) :
    ∃ (counts : Option (Dict String Int)) (results : Json),
      CountsFrom events ⟨"qpe", numCountingQubits + 1,
        buildQpeCircuit mathPi ⟨2 * mathPi * phi⟩ numCountingQubits, shots⟩ counts ∧
      estimates numCountingQubits counts = .ok results ∧
      result = .obj [("true_phi", .float phi), ("resolution", .float (1 / 2 ^ numCountingQubits)),
        ("results", results)] := by
  obtain ⟨answered, first, rest, hcounts, rfl, hlast⟩ := submitted_parts h
  obtain ⟨results, hresults, hlast⟩ := Py.returns_ofExcept hlast
  obtain ⟨-, hresult⟩ := (Program.returns_ret _ _ _).mp hlast
  exact ⟨answered.counts, results, hcounts.mono (List.sublist_append_left _ _), hresults,
    Except.ok.inj hresult⟩

end results

section vqe

variable {env : Env} {events : List (Event sig)} {shots : Json} {molecule : MolecularHamiltonian}

theorem evaluateTerms_energy {params : List ℚ} {terms : List PauliTerm} {total energy : ℚ}
    {metrics later : VQEIterationMetrics}
    (h : (evaluateTerms env params shots molecule terms total metrics).run.Returns events
      (.ok (energy, later))) :
    EnergyFrom events params shots molecule terms total energy := by
  induction terms generalizing total metrics events with
  | nil =>
      obtain ⟨-, hsame⟩ := (Program.returns_ret _ _ _).mp h
      obtain ⟨rfl, -⟩ := Prod.mk.inj (Except.ok.inj hsame)
      exact .done _
  | cons term rest ih =>
      unfold evaluateTerms at h
      split_ifs at h with hidentity
      · exact .constant hidentity (ih h)
      · obtain ⟨qc, hqc, h⟩ := Py.returns_ofExcept h
        obtain ⟨handle, first, second, rfl, hsubmit, h⟩ := Py.returns_parts h
        rw [Py.run_lift_bind] at h
        obtain ⟨third, ⟨outcome, waiting⟩, last, rfl, hwait, h⟩ :=
          (Program.returns_bind _ _ _ _).mp h
        obtain ⟨result, rfl, h⟩ := Py.returns_ofExcept h
        obtain ⟨counts, hcounts, h⟩ := Py.returns_ofExcept h
        obtain ⟨expectation, hexpected, h⟩ := Py.returns_ofExcept h
        have hfrom : CountsFrom (first ++ third) ⟨termName term, molecule.numQubits, qc, shots⟩
            result.counts := .of_submit hsubmit (waitForResult_fetched hwait)
        have hgiven : result.counts = some counts := by
          cases hanswer : result.counts with
          | none =>
              rw [hanswer] at hcounts
              cases hcounts
          | some found =>
              rw [hanswer] at hcounts
              rw [Except.ok.inj hcounts]
        rw [hgiven] at hfrom
        rw [← List.append_assoc]
        exact .measured hidentity hqc (hfrom.mono (List.sublist_append_left _ _)) hexpected
          ((ih h).mono (List.sublist_append_right _ _))

theorem minimizeCost_history {optimizer : Optimizer} {history : List VQEIterationLog}
    {summary : VQEResult}
    (h : (minimizeCost env shots molecule optimizer history).run.Returns events (.ok summary)) :
    ∃ later, summary.history = history ++ later ∧
      HistoryFrom events shots molecule optimizer history.length later summary.optimalParams
        summary.electronicEnergy ∧
      summary.totalEnergy = summary.electronicEnergy + molecule.totalEnergyOffset := by
  induction optimizer generalizing history events with
  | finished x value =>
      obtain ⟨-, hsame⟩ := (Program.returns_ret _ _ _).mp h
      obtain rfl := Except.ok.inj hsame
      exact ⟨[], (List.append_nil _).symm, .finished _ _ _, rfl⟩
  | failed exc =>
      obtain ⟨-, hsame⟩ := (Program.returns_ret _ _ _).mp h
      cases hsame
  | evaluate params next ih =>
      obtain ⟨start, first, second, rfl, -, h⟩ := Py.returns_parts h
      obtain ⟨⟨energy, metrics⟩, third, fourth, rfl, henergy, h⟩ := Py.returns_parts h
      obtain ⟨stop, fifth, last, rfl, -, h⟩ := Py.returns_parts h
      obtain ⟨later, hhistory, hfrom, htotal⟩ := ih energy h
      have hmeasured := (evaluateTerms_energy henergy).mono
        ((List.sublist_append_left third (fifth ++ last)).trans (List.sublist_append_right first _))
      rw [List.length_append] at hfrom
      rw [List.append_assoc] at hhistory
      refine ⟨_, hhistory, .evaluate rfl rfl hmeasured (hfrom.mono ?_), htotal⟩
      exact (List.sublist_append_right fifth last).trans
        ((List.sublist_append_right third _).trans (List.sublist_append_right first _))

end vqe

end QuantumPlatform.Orchestrator
