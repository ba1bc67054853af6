import QuantumPlatform.Orchestrator.Execution

namespace QuantumPlatform.Orchestrator

open Process Python QuantumPlatform.Core

-- The pure parts of running a task raise subclasses of Exception only.
section pure_parts

theorem groverProblem_onlyExceptions (numQubits : Nat) (markedStates : List String) :
    OnlyExceptions (GroverProblem.new numQubits markedStates) := by
  unfold GroverProblem.new
  split_ifs
  · exact .error _ rfl
  · split
    · refine .error _ ?_
      unfold stateError
      split_ifs <;> rfl
    · exact .ok _

theorem optimalIterations_onlyExceptions (numQubits numMarked : Nat) :
    OnlyExceptions (optimalIterations numQubits numMarked) := by
  unfold optimalIterations
  split_ifs
  · exact .error _ rfl
  · exact .ok _

theorem addressable_onlyExceptions (numQubits : Nat) :
    OnlyExceptions (addressable numQubits) := by
  unfold addressable
  split_ifs
  · exact .error _ rfl
  · exact .ok _

theorem buildGroverCircuit_onlyExceptions (problem : GroverProblem) (iterations : Nat) :
    OnlyExceptions (buildGroverCircuit problem iterations : Except Exc (QuantumCircuit ℚ)) :=
  (addressable_onlyExceptions _).bind fun _ => .ok _

theorem ofOrdinary_onlyExceptions {α : Type} (result : Except Ordinary α) :
    OnlyExceptions (ofOrdinary result) := by
  cases result with
  | ok value => exact .ok value
  | error exc => exact .error exc.1 exc.2

variable (env : Env)

theorem countSolutions_onlyExceptions (problem : BooleanSearchProblem) :
    OnlyExceptions (problem.countSolutions fun text assignment =>
      ofOrdinary (env.externals.evalBooleanExpression text assignment)) := by
  unfold BooleanSearchProblem.countSolutions
  refine OnlyExceptions.bind (.mapM (fun bits => ?_) _) fun _ => .ok _
  exact (ofOrdinary_onlyExceptions _).bind fun _ => .ok _

theorem buildSatGroverCircuit_onlyExceptions (problem : BooleanSearchProblem) (iterations : Nat) :
    OnlyExceptions (buildSatGroverCircuit problem iterations fun text order =>
      ofOrdinary (env.externals.phaseOracleGate text order) : Except Exc (QuantumCircuit ℚ)) :=
  (ofOrdinary_onlyExceptions _).bind fun _ =>
    (addressable_onlyExceptions _).bind fun _ => .ok _

theorem countsWithEstimates_onlyExceptions (numCountingQubits : Nat)
    (items : List (String × Int)) :
    OnlyExceptions (countsWithEstimates numCountingQubits items) := by
  induction items with
  | nil => exact .ok _
  | cons item rest ih =>
      unfold countsWithEstimates
      have hvalue : OnlyExceptions (binaryValue item.1) := by
        unfold binaryValue
        split_ifs
        · exact .ok _
        · exact .error _ rfl
      exact hvalue.bind fun _ => ih.bind fun _ => .ok _

theorem buildMeasurementCircuit_onlyExceptions (params : List ℚ) (term : PauliTerm)
    (molecule : MolecularHamiltonian) :
    OnlyExceptions (buildMeasurementCircuit params term molecule) := by
  have hansatz : OnlyExceptions
      (buildAnsatz molecule.numQubits params molecule.initialState) := by
    unfold buildAnsatz
    split_ifs
    · exact .error _ rfl
    · exact .ok _
  unfold buildMeasurementCircuit
  split_ifs
  · exact OnlyExceptions.bind (.error _ rfl) fun _ => hansatz.bind fun _ => .ok _
  · exact hansatz.bind fun _ => .ok _

theorem pauliExpectationFromCounts_onlyExceptions (counts : Dict String Int) (term : PauliTerm) :
    OnlyExceptions (pauliExpectationFromCounts counts term) := by
  have hbit : ∀ chars qubit, OnlyExceptions (bitAt chars qubit) := by
    intro chars qubit
    unfold bitAt
    simp only
    split_ifs
    · split
      · exact .ok _
      · exact .error _ rfl
    · split
      · exact .ok _
      · exact .error _ rfl
    · exact .error _ rfl
  have hsign : ∀ bitstring qubits, OnlyExceptions (signOf bitstring qubits) := by
    intro bitstring qubits
    exact .foldlM (fun _ _ => (hbit _ _).bind fun _ => .ok _) _ _
  have hsum : ∀ items : List (String × Int), OnlyExceptions
      (items.foldlM (fun (acc : ℚ) entry => do
        let sign ← signOf entry.1 term.qubits.keys
        return acc + sign * entry.2) 0) := by
    intro items
    exact .foldlM (fun _ _ => (hsign _ _).bind fun _ => .ok _) _ _
  unfold pauliExpectationFromCounts
  simp only
  split_ifs
  · exact OnlyExceptions.bind (.error _ rfl) fun _ => (hsum _).bind fun _ => .ok _
  · exact (hsum _).bind fun _ => .ok _

theorem findMolecule_onlyExceptions (name : Json) : OnlyExceptions (findMolecule env name) := by
  unfold findMolecule
  split
  · unfold getMolecule
    split_ifs
    · exact .ok _
    · exact ofOrdinary_onlyExceptions _
    · exact .error _ rfl
  · exact .error _ rfl

theorem require_onlyExceptions (params : Json) (name : String) :
    OnlyExceptions (require params name) := by
  unfold require
  split
  · split
    · exact .ok _
    · exact .error _ rfl
  · exact .error _ rfl

theorem paramOr_onlyExceptions (params : Json) (name : String) (fallback : Json) :
    OnlyExceptions (paramOr params name fallback) := by
  unfold paramOr
  split
  · exact .ok _
  · exact .error _ rfl

theorem asStr_onlyExceptions (value : Json) : OnlyExceptions (asStr value) := by
  unfold asStr
  split
  · exact .ok _
  · exact .error _ rfl

theorem asStrings_onlyExceptions (value : Json) : OnlyExceptions (asStrings value) := by
  unfold asStrings
  split
  · exact .mapM asStr_onlyExceptions _
  · exact .error _ rfl

theorem asFloat_onlyExceptions (value : Json) : OnlyExceptions (asFloat value) := by
  unfold asFloat
  split
  · exact .ok _
  · exact .ok _
  · exact .error _ rfl

theorem asCount_onlyExceptions (value : Json) : OnlyExceptions (asCount value) := by
  unfold asCount
  split
  · split_ifs
    · exact .ok _
    · exact .error _ rfl
  · exact .error _ rfl

end pure_parts

section keeps

variable {State α β : Type} {monitor : Monitor sig State} {inv : State → Prop}
  {held : State → JobHandle → Prop} {bad : State → Exc → Prop} {env : Env}

-- The invariant after a normal end, and what is known after an exception.
def Kept (inv : State → Prop) (bad : State → Exc → Prop) (state : State) :
    Except Exc α → Prop
  | .ok _ => inv state
  | .error exc => bad state exc

-- What a VQE run does apart from computing: it submits and waits, reads the
-- clocks and sends telemetry. A monitor that these keep is kept by the whole
-- run. `held` is what holds while a job is waited for.
structure Keeping (monitor : Monitor sig State) (inv : State → Prop)
    (held : State → JobHandle → Prop) (bad : State → Exc → Prop) (env : Env) : Prop where
  ordinary : ∀ state exc, inv state → exc.isException = true → bad state exc
  submit : ∀ state circuit, inv state →
    monitor.Obeys (fun later result => match result with
      | .ok handle => held later handle
      | .error exc => bad later exc)
      state (submit circuit).run
  kafkaSend : ∀ state topic payload, inv state →
    monitor.Obeys (fun later result => match result with
      | .ok _ => inv later
      | .error exc => if exc.isException then inv later else bad later exc)
      state (kafkaSend topic payload).run
  utcnow : ∀ state, inv state → monitor.allowed state .utcnow ∧
    ∀ now, monitor.admits state .utcnow now → inv (monitor.next state .utcnow now)
  monotonic : ∀ state, inv state → monitor.allowed state .monotonic ∧
    ∀ now, monitor.admits state .monotonic now → inv (monitor.next state .monotonic now)
  waitTerm : ∀ state handle, held state handle →
    monitor.Obeys (fun later outcome => match outcome.1 with
      | .ok result => match result.counts with
        | none => bad later (Exc.assertionError "")
        | some _ => inv later
      | .error exc => bad later exc) state
      (waitForResult env.fuel env.settings.backendName handle
        { initialInterval := env.settings.pollingInitialInterval,
          maxInterval := env.settings.pollingMaxInterval } {} false (some {}))

-- The other algorithms wait for one job, whatever its result.
structure KeepingOnce (monitor : Monitor sig State) (inv : State → Prop)
    (held : State → JobHandle → Prop) (bad : State → Exc → Prop) (env : Env) : Prop extends
    Keeping monitor inv held bad env where
  waitOnce : ∀ state handle, held state handle →
    monitor.Obeys (Kept inv bad) state (waitOnce env handle executionConfig).run

theorem Kept.bind {state : State} {body : Py sig α} {f : α → Py sig β}
    (hbody : monitor.Obeys (Kept inv bad) state body.run)
    (hf : ∀ later value, inv later → monitor.Obeys (Kept inv bad) later (f value).run) :
    monitor.Obeys (Kept inv bad) state (body >>= f).run :=
  Py.obeys_bind hbody hf fun _ _ hbad => hbad

theorem Kept.ofExcept {state : State} {result : Except Exc α} {f : α → Py sig β}
    (hresult : Kept inv bad state result)
    (hf : ∀ value, inv state → monitor.Obeys (Kept inv bad) state (f value).run) :
    monitor.Obeys (Kept inv bad) state (Py.ofExcept result >>= f).run := by
  cases result with
  | ok value => exact hf value hresult
  | error exc => exact hresult

section vqe

variable (hkeeping : Keeping monitor inv held bad env)

include hkeeping

theorem Keeping.ofExcept {state : State} {result : Except Exc α} {f : α → Py sig β}
    (hresult : OnlyExceptions result) (hinv : inv state)
    (hf : ∀ value, result = .ok value → monitor.Obeys (Kept inv bad) state (f value).run) :
    monitor.Obeys (Kept inv bad) state (Py.ofExcept result >>= f).run := by
  cases result with
  | ok value => exact hf value rfl
  | error exc => exact hkeeping.ordinary state exc hinv (hresult exc rfl)

theorem Keeping.submitted {state : State} (circuit : Circuit) {f : JobHandle → Py sig β}
    (hinv : inv state)
    (hf : ∀ later handle, held later handle → monitor.Obeys (Kept inv bad) later (f handle).run) :
    monitor.Obeys (Kept inv bad) state (Orchestrator.submit circuit >>= f).run :=
  Py.obeys_bind (hkeeping.submit state circuit hinv) hf fun _ _ hbad => hbad

theorem Keeping.evaluateTerms (params : List ℚ) (shots : Json) (molecule : MolecularHamiltonian)
    (terms : List PauliTerm) (total : ℚ) (metrics : VQEIterationMetrics) (state : State)
    (hinv : inv state) :
    monitor.Obeys (Kept inv bad) state
      (evaluateTerms env params shots molecule terms total metrics).run := by
  induction terms generalizing total metrics state with
  | nil => exact hinv
  | cons term rest ih =>
      unfold Orchestrator.evaluateTerms
      split_ifs
      · exact ih _ _ state hinv
      · refine hkeeping.ofExcept (buildMeasurementCircuit_onlyExceptions _ _ _) hinv fun qc _ => ?_
        refine hkeeping.submitted _ hinv fun later handle hlater => ?_
        rw [Py.run_lift_bind]
        refine (hkeeping.waitTerm later handle hlater).bind fun last outcome hlast => ?_
        obtain ⟨result, waiting⟩ := outcome
        cases result with
        | error exc => exact hlast
        | ok result =>
            rw [Py.ofExcept_ok, pure_bind]
            simp only at hlast ⊢
            cases hcounts : result.counts with
            | none =>
                rw [hcounts] at hlast
                exact hlast
            | some counts =>
                rw [hcounts] at hlast
                rw [Py.ofExcept_ok, pure_bind]
                refine hkeeping.ofExcept (pauliExpectationFromCounts_onlyExceptions counts term)
                  hlast fun expectation _ => ?_
                exact ih _ _ last hlast

theorem Keeping.clock {state : State} (hinv : inv state) {f : ℚ → Py sig α}
    (hf : ∀ later now, inv later → monitor.Obeys (Kept inv bad) later (f now).run) :
    monitor.Obeys (Kept inv bad) state (Py.lift Orchestrator.monotonic >>= f).run := by
  rw [Py.run_lift_bind]
  obtain ⟨hallowed, hnext⟩ := hkeeping.monotonic state hinv
  exact ⟨hallowed, fun now hadmits => hf _ now (hnext now hadmits)⟩

theorem Keeping.minimizeCost (shots : Json) (molecule : MolecularHamiltonian)
    (optimizer : Optimizer) (history : List VQEIterationLog) (state : State)
    (hinv : inv state) :
    monitor.Obeys (Kept inv bad) state
      (minimizeCost env shots molecule optimizer history).run := by
  induction optimizer generalizing history state with
  | finished x value => exact hinv
  | failed exc => exact hkeeping.ordinary state exc.1 hinv exc.2
  | evaluate params next ih =>
      unfold Orchestrator.minimizeCost
      refine hkeeping.clock hinv fun started start hstarted => ?_
      refine Kept.bind (hkeeping.evaluateTerms params shots molecule molecule.terms 0 {} started
        hstarted) fun measured entry hmeasured => ?_
      refine hkeeping.clock hmeasured fun stopped stop hstopped => ?_
      exact ih entry.1 _ stopped hstopped

theorem Keeping.runVqeSync (shots maxIterations moleculeName : Json) (state : State)
    (hinv : inv state) :
    monitor.Obeys (Kept inv bad) state
      (runVqeSync env shots maxIterations moleculeName).run := by
  unfold Orchestrator.runVqeSync
  refine hkeeping.ofExcept (findMolecule_onlyExceptions env _) hinv fun molecule _ => ?_
  exact Kept.bind (hkeeping.minimizeCost shots molecule _ [] state hinv) fun _ _ hlast => hlast

theorem Keeping.sendHistory (experimentId : Json) (timestamp : Int)
    (history : List VQEIterationLog) (state : State) (hinv : inv state) :
    monitor.Obeys (Kept inv bad) state
      (publishVqeHistory.send experimentId timestamp history).run := by
  induction history generalizing state with
  | nil => exact hinv
  | cons log rest ih =>
      unfold publishVqeHistory.send
      refine Kept.bind ?_ fun later sent hlater => ?_
      · rw [Py.run_exceptException, Py.run_bind, Program.bind_assoc]
        refine (hkeeping.kafkaSend state _ _ hinv).bind fun later result hsent => ?_
        cases result with
        | ok value => exact hsent
        | error exc =>
            simp only [Program.ret_bind] at hsent ⊢
            split_ifs at hsent ⊢
            · exact hsent
            · exact hsent
      · cases sent with
        | true => exact ih later hlater
        | false => exact hlater

theorem Keeping.publishVqeHistory (experimentId : Json) (history : List VQEIterationLog)
    (state : State) (hinv : inv state) :
    monitor.Obeys (Kept inv bad) state (publishVqeHistory experimentId history).run := by
  obtain ⟨hallowed, hnext⟩ := hkeeping.utcnow state hinv
  exact ⟨hallowed, fun now hadmits =>
    hkeeping.sendHistory experimentId now history _ (hnext now hadmits)⟩

theorem Keeping.executeTask_vqe (task : ExperimentTask) (hvqe : task.algorithm.isStr "vqe" = true)
    (state : State) (hinv : inv state) :
    monitor.Obeys (Kept inv bad) state (executeTask env task).run := by
  have hother : ∀ name, "vqe" ≠ name → ¬ task.algorithm.isStr name = true := fun name hname => by
    rw [Json.isStr_false hvqe hname]
    exact Bool.false_ne_true
  have hor := paramOr_onlyExceptions task.params
  unfold Orchestrator.executeTask
  simp only
  rw [if_neg (hother "grover" (by decide)), if_neg (hother "sat_grover" (by decide)),
    if_neg (hother "qpe" (by decide)), if_pos hvqe]
  refine hkeeping.ofExcept (hor _ _) hinv fun shots _ => ?_
  refine hkeeping.ofExcept (hor _ _) hinv fun maxIterations _ => ?_
  refine hkeeping.ofExcept (hor _ _) hinv fun moleculeName _ => ?_
  refine Kept.bind (hkeeping.runVqeSync shots maxIterations moleculeName state hinv)
    fun later result hlater => ?_
  exact Kept.bind (hkeeping.publishVqeHistory task.experimentId result.2 later hlater)
    fun _ _ hlast => hlast

end vqe

section once

variable (hkeeping : KeepingOnce monitor inv held bad env)

include hkeeping

theorem KeepingOnce.runGrover (markedStates : List String) (shots : Json) (state : State)
    (hinv : inv state) :
    monitor.Obeys (Kept inv bad) state (runGrover env markedStates shots).run := by
  unfold Orchestrator.runGrover
  refine hkeeping.ofExcept ?_ hinv fun numQubits _ => ?_
  · cases markedStates with
    | nil => exact .error _ rfl
    | cons first rest => exact .ok _
  refine hkeeping.ofExcept (groverProblem_onlyExceptions _ _) hinv fun problem _ => ?_
  refine hkeeping.ofExcept (optimalIterations_onlyExceptions _ _) hinv fun iterations _ => ?_
  refine hkeeping.ofExcept (buildGroverCircuit_onlyExceptions _ _) hinv fun qc _ => ?_
  refine hkeeping.submitted _ hinv fun later handle hlater => ?_
  exact Kept.bind (hkeeping.waitOnce later handle hlater) fun _ _ hlast => hlast

theorem KeepingOnce.runSatGrover (variableNames : List String) (expression : String) (shots : Json)
    (state : State) (hinv : inv state) :
    monitor.Obeys (Kept inv bad) state
      (runSatGrover env variableNames expression shots).run := by
  unfold Orchestrator.runSatGrover
  refine hkeeping.ofExcept (countSolutions_onlyExceptions env _) hinv fun solutions _ => ?_
  refine hkeeping.ofExcept ?_ hinv fun iterations _ => ?_
  · split_ifs
    · exact .ok _
    · exact optimalIterations_onlyExceptions _ _
  split_ifs
  · exact hinv
  · refine hkeeping.ofExcept (buildSatGroverCircuit_onlyExceptions env _ _) hinv fun qc _ => ?_
    refine hkeeping.submitted _ hinv fun later handle hlater => ?_
    exact Kept.bind (hkeeping.waitOnce later handle hlater) fun _ _ hlast => hlast

theorem KeepingOnce.runQpe (phi : ℚ) (numCountingQubits : Nat) (shots : Json) (state : State)
    (hinv : inv state) :
    monitor.Obeys (Kept inv bad) state (runQpe env phi numCountingQubits shots).run := by
  unfold Orchestrator.runQpe
  refine hkeeping.submitted _ hinv fun later handle hlater => ?_
  refine Kept.bind (hkeeping.waitOnce later handle hlater) fun last result hlast => ?_
  refine hkeeping.ofExcept ?_ hlast fun _ _ => hlast
  cases result.counts with
  | none => exact .ok _
  | some counts =>
      simp only
      split_ifs
      · exact .ok _
      · exact (countsWithEstimates_onlyExceptions _ _).bind fun _ => .ok _

-- Whatever the task and the backend, running it keeps what submitting, waiting,
-- reading a clock and sending telemetry keep.
theorem KeepingOnce.executeTask (task : ExperimentTask) (state : State) (hinv : inv state) :
    monitor.Obeys (Kept inv bad) state (executeTask env task).run := by
  have hstrings : ∀ name, OnlyExceptions (require task.params name >>= asStrings) := fun name =>
    (require_onlyExceptions _ name).bind asStrings_onlyExceptions
  have hstr : ∀ name, OnlyExceptions (require task.params name >>= asStr) := fun name =>
    (require_onlyExceptions _ name).bind asStr_onlyExceptions
  have hor := paramOr_onlyExceptions task.params
  by_cases hvqe : task.algorithm.isStr "vqe" = true
  · exact hkeeping.executeTask_vqe task hvqe state hinv
  unfold Orchestrator.executeTask
  simp only
  split_ifs
  · refine hkeeping.ofExcept (hstrings _) hinv fun markedStates _ => ?_
    refine hkeeping.ofExcept (hor _ _) hinv fun shots _ => ?_
    exact hkeeping.runGrover markedStates shots state hinv
  · refine hkeeping.ofExcept (hstrings _) hinv fun variableNames _ => ?_
    refine hkeeping.ofExcept (hstr _) hinv fun expression _ => ?_
    refine hkeeping.ofExcept (hor _ _) hinv fun shots _ => ?_
    exact hkeeping.runSatGrover variableNames expression shots state hinv
  · refine hkeeping.ofExcept ((require_onlyExceptions _ _).bind asFloat_onlyExceptions) hinv
      fun phi _ => ?_
    refine hkeeping.ofExcept ((hor _ _).bind asCount_onlyExceptions) hinv fun count _ => ?_
    refine hkeeping.ofExcept (hor _ _) hinv fun shots _ => ?_
    exact hkeeping.runQpe phi count shots state hinv
  · refine hkeeping.ordinary state _ hinv ?_
    unfold unknownAlgorithm
    split <;> rfl

end once

end keeps

end QuantumPlatform.Orchestrator
