import QuantumPlatform.Indexer.Lines
import QuantumPlatform.Orchestrator.Execution.Evidence
import QuantumPlatform.Orchestrator.Log.Theorems
import QuantumPlatform.Process.Fallible
import QuantumPlatform.Python.Floats
import QuantumPlatform.Python.Labelled

namespace QuantumPlatform.Indexer

open Process Python QuantumPlatform.Core

-- The record of an experiment that has completed with this result.
structure CompletedWith (fields : List (String × Json)) (algorithm : String)
    (parameters : List (String × Json)) (result : Json) : Prop where
  algorithm : findField fields "algorithm" = some (.str algorithm)
  parameters : findField fields "parameters" = some (.obj parameters)
  result : findField fields "result" = some result

section producers

variable {oenv : Orchestrator.Env}

def qpeResult (phi : ℚ) (numCountingQubits : ℕ) (results : Json) : Json :=
  .obj [("true_phi", .float phi), ("resolution", .float (1 / 2 ^ numCountingQubits)),
    ("results", results)]

def vqeResult (molecule : MolecularHamiltonian) (result : Orchestrator.VQEResult) : Json :=
  .obj [("molecule", .str molecule.name), ("num_qubits", .int molecule.numQubits),
    ("geometry", .str molecule.geometry), ("mapping", .str molecule.mapping),
    ("optimal_params", Orchestrator.floats result.optimalParams),
    ("active_space_energy", .float result.electronicEnergy),
    ("electronic_energy", .float (result.electronicEnergy + molecule.inactiveEnergy)),
    ("nuclear_repulsion", .float molecule.nuclearRepulsion),
    ("inactive_energy", .float molecule.inactiveEnergy),
    ("energy_offset", .float molecule.totalEnergyOffset),
    ("total_energy", .float result.totalEnergy),
    ("reference_ground_energy", match molecule.referenceGroundEnergy with
      | none => .null
      | some energy => .float energy),
    ("iterations_run", .int result.history.length),
    ("history", .arr (result.history.map fun log => .obj log.asdict))]

-- Whatever run_qpe returns is one of these dicts, and likewise for run_vqe_sync.
theorem runQpe_result {phi : ℚ} {numCountingQubits : ℕ} {shots : Json}
    {events : List (Event Orchestrator.sig)} {result : Json}
    (h : (Orchestrator.runQpe oenv phi numCountingQubits shots).run.Returns events (.ok result)) :
    ∃ counts results, Orchestrator.estimates numCountingQubits counts = .ok results ∧
      result = qpeResult phi numCountingQubits results := by
  obtain ⟨counts, results, -, hresults, hresult⟩ := Orchestrator.runQpe_counts h
  exact ⟨counts, results, hresults, hresult⟩

theorem runVqeSync_result {shots maxIterations moleculeName : Json}
    {events : List (Event Orchestrator.sig)} {result : Json}
    {history : List Orchestrator.VQEIterationLog}
    (h : (Orchestrator.runVqeSync oenv shots maxIterations moleculeName).run.Returns events
      (.ok (result, history))) :
    ∃ molecule summary, result = vqeResult molecule summary ∧ history = summary.history := by
  obtain ⟨molecule, _, hfound⟩ := Py.returns_ok h
  obtain ⟨summary, _, hran⟩ := Py.returns_ok hfound
  obtain ⟨-, hresult⟩ := (Program.returns_ret _ _ _).mp hran
  obtain ⟨hdict, hhistory⟩ := Prod.mk.inj (Except.ok.inj hresult)
  exact ⟨molecule, summary, hdict, hhistory⟩

end producers

section fields

variable (env : Env) (fields parameters : List (String × Json))

-- What stands behind the label of a line.
def printed (value : Json) : String :=
  match value with
  | .arr _ => env.dumps value
  | .obj _ => env.dumps value
  | _ => env.str value

-- What a field leaves in a text: nothing if it is None, or a string that reads like it.
def shownAs (value : Json) : Option String :=
  if isNone value || looksAbsent value then none else some (printed env value)

def statusOf : Json := argument fields "status" (.str "unknown")

def shownError : Option String :=
  if truthy (argument fields "error" .null) then shownAs env (argument fields "error" .null)
  else none

def shownMolecule (name : String) : Json :=
  if truthy (argument parameters "molecule" .null) then argument parameters "molecule" .null
  else if name = "" then .str "h2" else .str name

-- The printed form of an energy.
def figure (value : ℚ) : String := env.str (.float value)

def qpeRows : List (String × Option String) :=
  [("Algorithm", shownAs env (.str "qpe")), ("Status", shownAs env (statusOf fields)),
    ("True phase", shownAs env (argument parameters "phi" .null)),
    ("Counting qubits", shownAs env (argument parameters "num_counting_qubits" .null)),
    ("Shots", shownAs env (argument parameters "shots" .null)), ("Error", shownError env fields)]

def trajectoryRows : List ℚ → List (String × Option String)
  | [] => [("Initial energy (Ha)", none), ("Best energy (Ha)", none),
      ("Energy trajectory (Ha)", none)]
  | first :: rest => [("Initial energy (Ha)", some (figure env first)),
      ("Best energy (Ha)", some (figure env (rest.foldl min first))),
      ("Energy trajectory (Ha)", some (env.dumps (.arr ((first :: rest).map Json.float))))]

def vqeRows (molecule : String) (energies : List ℚ) : List (String × Option String) :=
  [("Algorithm", shownAs env (.str "vqe")), ("Status", shownAs env (statusOf fields)),
    ("Molecule", shownAs env (shownMolecule parameters molecule)),
    ("Shots", shownAs env (argument parameters "shots" .null)),
    ("Maximum optimizer iterations", shownAs env (argument parameters "max_iterations" .null))] ++
    trajectoryRows env energies ++ [("Error", shownError env fields)]

end fields

section texts

variable {repr : Json → String} {format : ℚ → String} {encode : String → String → List ℚ}
  {fields parameters : List (String × Json)} {algorithm : String}

theorem argument_of_findField {name : String} {value : Json}
    (h : findField fields name = some value) (fallback : Json) :
    argument fields name fallback = value := by
  rw [argument, h, Option.getD_some]

-- A record is taken apart the same way for every algorithm.
theorem selected_completed (env : Env) {result : List (String × Json)} (hresult : result ≠ [])
    (h : CompletedWith fields algorithm parameters (.obj result)) :
    selected env (.obj fields) =
      (fun specific => [("Algorithm", .str algorithm), ("Status", statusOf fields)] ++ specific ++
          errorField (argument fields "error" .null)) <$>
        algorithmFields env (.str algorithm) (.obj parameters) (.obj result) := by
  have halgorithm : subscript (.obj fields) "algorithm" = .ok (.str algorithm) := by
    simp [subscript, h.algorithm]
  have hparameters : orElse (.obj parameters) (.ok (.obj [])) = .ok (.obj parameters) := by
    cases parameters with
    | nil => rfl
    | cons field rest => rfl
  have htruthy : orElse (.obj result) (.ok (.obj [])) = .ok (.obj result) := by
    cases result with
    | nil => exact absurd rfl hresult
    | cons field rest => rfl
  have hfound : get (.obj fields) "parameters" = .ok (.obj parameters) :=
    congrArg Except.ok (argument_of_findField h.parameters .null)
  have hreturned : get (.obj fields) "result" = .ok (.obj result) :=
    congrArg Except.ok (argument_of_findField h.result .null)
  have hstatus : getOr (.obj fields) "status" (.str "unknown") = .ok (statusOf fields) := rfl
  have herror : get (.obj fields) "error" = .ok (argument fields "error" .null) := rfl
  simp only [selected, describe, halgorithm, hfound, hreturned, hparameters, htruthy, hstatus,
    herror, ok_bind, bind_assoc, pure_bind, map_eq_pure_bind]

-- The rows of a record's text, one for each field that is selected.
def rowsOf (env : Env) (fields : List (String × Json)) : List (String × Option String) :=
  fields.map fun field => (field.1, shownAs env field.2)

variable (hrepr : ∀ value, Figure (repr (.float value)))
include hrepr

theorem shownLines_eq (fields : List (String × Json)) :
    shownLines (pythonEnv repr format encode) fields =
      (visible (rowsOf (pythonEnv repr format encode) fields)).map labelled := by
  induction fields with
  | nil => rfl
  | cons field fields ih =>
      have hdropped := line_dropped format encode (fun value => (hrepr value).last) field.1 field.2
      have hline : line (pythonEnv repr format encode) field.1 field.2 =
          labelled (field.1, printed (pythonEnv repr format encode) field.2) := rfl
      rw [shownLines, fieldLines] at ih ⊢
      rw [List.map_cons, List.filter_cons, hdropped, ih]
      unfold visible rowsOf shownAs
      rw [List.map_cons, List.filterMap_cons]
      cases isNone field.2 || looksAbsent field.2 with
      | false => rw [hline]; rfl
      | true => rfl

-- The text is a sheet of the rows that are visible.
theorem text_eq (experiment : Json) :
    canonicalExperimentText (pythonEnv repr format encode) experiment =
      (fun fields => sheet (visible (rowsOf (pythonEnv repr format encode) fields))) <$>
        selected (pythonEnv repr format encode) experiment := by
  rw [canonicalExperimentText_selected]
  exact congrArg (fun text => text <$> _) (funext fun fields => by rw [shownLines_eq hrepr]; rfl)

omit hrepr in
theorem visible_error (env : Env) (rows : List (String × Option String)) :
    visible (rows ++ rowsOf env (errorField (argument fields "error" .null))) =
      visible (rows ++ [("Error", shownError env fields)]) := by
  unfold errorField shownError visible
  rw [List.filterMap_append, List.filterMap_append]
  split_ifs
  · rfl
  · rfl

-- Nothing of the result of a phase estimation is shown.
theorem qpe_text {phi : ℚ} {numCountingQubits : ℕ} {results : Json}
    (h : CompletedWith fields "qpe" parameters (qpeResult phi numCountingQubits results)) :
    canonicalExperimentText (pythonEnv repr format encode) (.obj fields) =
      .ok (sheet (visible (qpeRows (pythonEnv repr format encode) fields parameters))) := by
  rw [text_eq hrepr, selected_completed _ (by simp) h]
  refine congrArg (fun rows => Except.ok (sheet rows)) ?_
  rw [rowsOf, List.map_append]
  exact visible_error _ _

omit hrepr

theorem energiesOf_history (history : List Orchestrator.VQEIterationLog) :
    energiesOf (.arr (history.map fun log => .obj log.asdict)) =
      .ok (history.map fun log => .float log.energy) := by
  have henergies : (history.map fun log => Json.obj log.asdict).mapM (fun item => get item "energy") =
      .ok (history.map fun log => .float log.energy) := by
    rw [List.mapM_map]
    exact mapM_eq_map fun log _ => rfl
  have hgiven : (history.map fun log => Json.float log.energy).filter (fun energy => !isNone energy) =
      history.map fun log => .float log.energy := by
    rw [List.filter_eq_self]
    intro energy hmem
    obtain ⟨log, -, rfl⟩ := List.mem_map.mp hmem
    rfl
  simp only [energiesOf]
  rw [henergies]
  change Except.ok _ = _
  rw [hgiven]

-- Python's min() of floats.
theorem minimum_floats (first : ℚ) (rest : List ℚ) :
    minimum ((first :: rest).map Json.float) = .ok (.float (rest.foldl min first)) := by
  unfold minimum
  simp only [List.map_cons]
  induction rest generalizing first with
  | nil => rfl
  | cons next rest ih =>
      have hstep : (do return if ← Json.less (.float next) (.float first) then Json.float next
          else Json.float first : Except Exc Json) = .ok (.float (min first next)) := by
        change Except.ok (if decide (next < first) = true then Json.float next else .float first) = _
        rw [min_def]
        by_cases hless : next < first
        · rw [if_pos (decide_eq_true hless), if_neg (not_le.mpr hless)]
        · rw [if_neg (by simpa using hless), if_pos (not_lt.mp hless)]
      rw [List.map_cons, List.foldlM_cons, hstep]
      exact ih (min first next)

def trajectoryFields : List ℚ → List (String × Json)
  | [] => []
  | first :: rest => [("Initial energy (Ha)", .float first),
      ("Best energy (Ha)", .float (rest.foldl min first)),
      ("Energy trajectory (Ha)", .arr ((first :: rest).map Json.float))]

theorem vqeFields_result (molecule : MolecularHamiltonian) (summary : Orchestrator.VQEResult) :
    vqeFields (pythonEnv repr format encode) (.obj parameters) (vqeResult molecule summary) =
      .ok ([("Molecule", shownMolecule parameters molecule.name),
        ("Shots", argument parameters "shots" .null),
        ("Maximum optimizer iterations", argument parameters "max_iterations" .null),
        ("Energy (Ha)", .null), ("Optimizer iterations", .null), ("Converged", .null)] ++
        trajectoryFields (summary.history.map fun log => log.energy)) := by
  have hmolecule : (orElse (argument parameters "molecule" .null)
      (orElse (.str molecule.name) (.ok (.str "h2")))) = .ok (shownMolecule parameters molecule.name) := by
    unfold orElse shownMolecule
    by_cases hnamed : truthy (argument parameters "molecule" .null) = true
    · rw [if_pos hnamed, if_pos hnamed]
    · rw [if_neg hnamed, if_neg hnamed]
      by_cases hempty : molecule.name = ""
      · simp [truthy, hempty]
      · simp [truthy, hempty]
  have hhistory : orElse (.arr (summary.history.map fun log => .obj log.asdict)) (.ok (.arr [])) =
      .ok (.arr (summary.history.map fun log => .obj log.asdict)) := by
    cases summary.history with
    | nil => rfl
    | cons log rest => rfl
  have hparameter : ∀ label name, selectField label (.obj parameters) name =
      .ok (label, argument parameters name .null) := fun _ _ => rfl
  have hgiven : get (.obj parameters) "molecule" = .ok (argument parameters "molecule" .null) := rfl
  have hnamed : get (vqeResult molecule summary) "molecule" = .ok (.str molecule.name) := rfl
  have henergy : ∀ label, selectField label (vqeResult molecule summary) "energy" =
      .ok (label, .null) := fun _ => rfl
  have hiterations : ∀ label, selectField label (vqeResult molecule summary) "iterations" =
      .ok (label, .null) := fun _ => rfl
  have hconverged : ∀ label, selectField label (vqeResult molecule summary) "converged" =
      .ok (label, .null) := fun _ => rfl
  have hlogs : get (vqeResult molecule summary) "history" =
      .ok (.arr (summary.history.map fun log => .obj log.asdict)) := rfl
  simp only [vqeFields, hparameter, hgiven, hnamed, henergy, hiterations, hconverged, hlogs,
    ok_bind, hmolecule, hhistory, energiesOf_history]
  cases summary.history with
  | nil => rfl
  | cons log rest =>
      have hbest := minimum_floats log.energy (rest.map fun log => log.energy)
      rw [List.map_cons, List.map_map] at hbest
      change (minimum (.float log.energy :: rest.map fun log => .float log.energy) >>= _) = _
      rw [show (rest.map fun log => Json.float log.energy) =
        rest.map (Json.float ∘ fun log => log.energy) from rfl, hbest]
      simp [trajectoryFields]

include hrepr in
-- Of the result of a VQE run, the molecule and the energies of the history are shown.
theorem vqe_text {molecule : MolecularHamiltonian} {summary : Orchestrator.VQEResult}
    (h : CompletedWith fields "vqe" parameters (vqeResult molecule summary)) :
    canonicalExperimentText (pythonEnv repr format encode) (.obj fields) =
      .ok (sheet (visible (vqeRows (pythonEnv repr format encode) fields parameters molecule.name
        (summary.history.map fun log => log.energy)))) := by
  have hfields : algorithmFields (pythonEnv repr format encode) (.str "vqe") (.obj parameters)
      (vqeResult molecule summary) =
      vqeFields (pythonEnv repr format encode) (.obj parameters) (vqeResult molecule summary) := rfl
  have hselected := selected_completed (pythonEnv repr format encode) (by simp) h
  rw [text_eq hrepr, hselected]
  change (fun fields => sheet (visible (rowsOf _ fields))) <$> (_ <$> algorithmFields _ _ _
    (vqeResult molecule summary)) = _
  rw [hfields, vqeFields_result]
  refine congrArg (fun rows => Except.ok (sheet rows)) ?_
  rw [rowsOf, List.map_append]
  refine (visible_error _ _).trans ?_
  unfold vqeRows
  cases summary.history with
  | nil => rfl
  | cons log rest => rfl

end texts

section carries

variable (env : Env)

def valueOf (result : Json) (name : String) : Json :=
  match result with
  | .obj fields => argument fields name .null
  | _ => .null

-- The text contains each of these, wherever it stands.
def Carries (text : String) (parts : List String) : Prop :=
  ∀ part ∈ parts, ∃ before after, text = before ++ part ++ after

-- The phase estimates and their counts, as they are printed.
def qpeParts (result : Json) : List String :=
  match valueOf result "results" with
  | .obj entries => entries.flatMap fun entry =>
      [env.str (valueOf entry.2 "phi_estimate"), env.str (valueOf entry.2 "count")]
  | _ => []

def vqeParts (result : Json) : List String :=
  [env.str (valueOf result "total_energy"), env.str (valueOf result "iterations_run")]

-- The text is there and contains each of these.
def Shows (fields : List (String × Json)) (parts : List String) : Prop :=
  ∃ text, canonicalExperimentText env (.obj fields) = .ok text ∧ Carries text parts

-- Records whose results differ in this field never have the same text.
def Tells (fields others : List (String × Json)) (result other : Json) (name : String) : Prop :=
  valueOf result name ≠ valueOf other name →
    canonicalExperimentText env (.obj fields) ≠ canonicalExperimentText env (.obj others)

-- Two records that do not differ in their status or in an error.
def SameEnd (fields others : List (String × Json)) : Prop :=
  argument fields "status" (.str "unknown") = argument others "status" (.str "unknown") ∧
    argument fields "error" .null = argument others "error" .null

-- A part that stands in one of these values, where they are shown.
def Found (part : String) (values : List (Option String)) : Prop :=
  ∃ text, some text ∈ values ∧ Occurs part text

def OneLine (value : Json) : Prop := '\n' ∉ (printed env value).toList

section values

variable (fields others parameters parameters' : List (String × Json))

-- The values of a record that are in a phase estimation's text, besides the algorithm and an
-- error.
def qpeValues : List Json :=
  [statusOf fields, argument parameters "phi" .null,
    argument parameters "num_counting_qubits" .null, argument parameters "shots" .null]

def qpeShown : List (Option String) :=
  (qpeValues fields parameters).map (shownAs env) ++ [shownError env fields]

-- Those that are in a VQE run's text, and each energy of the history for itself.
def vqeValues (molecule : String) : List Json :=
  [statusOf fields, shownMolecule parameters molecule, argument parameters "shots" .null,
    argument parameters "max_iterations" .null]

def vqeShown (molecule : String) (energies : List ℚ) : List (Option String) :=
  (vqeValues fields parameters molecule).map (shownAs env) ++
    energies.map (fun energy => some (figure env energy)) ++ [shownError env fields]

structure SamePrintedEnd : Prop where
  status : shownAs env (statusOf fields) = shownAs env (statusOf others)
  error : shownError env fields = shownError env others

-- Two VQE records that print the same parameters, molecule and energies.
structure SamePrintedRun (molecule molecule' : String) (energies energies' : List ℚ) : Prop
    extends SamePrintedEnd env fields others where
  molecule : shownAs env (shownMolecule parameters molecule) =
    shownAs env (shownMolecule parameters' molecule')
  shots : shownAs env (argument parameters "shots" .null) =
    shownAs env (argument parameters' "shots" .null)
  maxIterations : shownAs env (argument parameters "max_iterations" .null) =
    shownAs env (argument parameters' "max_iterations" .null)
  trajectory : energies.map (figure env) = energies'.map (figure env)
  best : energies.min?.map (figure env) = energies'.min?.map (figure env)

end values

section found

variable {repr : Json → String} {format : ℚ → String} {encode : String → String → List ℚ}
  {part : String} {fields parameters : List (String × Json)}

theorem shownAs_eq_some {value : Json} {text : String} (h : shownAs env value = some text) :
    printed env value = text := by
  unfold shownAs at h
  split_ifs at h
  exact Option.some.inj h

-- A text without digits and signs.
def figureless (text : String) : Bool := text.toList.all fun char => !char.isDigit && char != '-'

theorem Figure.first_notMem (hpart : Figure part) :
    ∃ first, part.toList.head? = some first ∧
      ∀ text, figureless text = true → first ∉ text.toList := by
  obtain ⟨first, hhead, hfirst⟩ := hpart.first
  refine ⟨first, hhead, fun text htext hmem => ?_⟩
  have hplain := List.all_eq_true.mp htext first hmem
  rcases hfirst with hdigit | rfl
  · simp [hdigit] at hplain
  · simp at hplain

theorem occurs_rows (hpart : Figure part) {rows : List (String × Option String)}
    (hlabels : ∀ row ∈ rows, figureless (row.1 ++ ": ") = true) :
    Occurs part (sheet (visible rows)) ↔ Found part (rows.map Prod.snd) := by
  obtain ⟨first, hhead, hfirst⟩ := Figure.first_notMem hpart
  have hline : '\n' ∉ part.toList := hpart.free (by decide) (by decide)
  rw [occurs_sheet hhead hline fun row hmem => hfirst _ (hlabels _ (mem_visible.mp hmem))]
  constructor
  · rintro ⟨row, hmem, hoccurs⟩
    exact ⟨row.2, List.mem_map_of_mem (f := Prod.snd) (mem_visible.mp hmem), hoccurs⟩
  · rintro ⟨text, hmem, hoccurs⟩
    obtain ⟨⟨label, value⟩, hrow, rfl⟩ := List.mem_map.mp hmem
    exact ⟨(label, text), mem_visible.mpr hrow, hoccurs⟩

theorem not_occurs (hpart : Figure part) {text : String} (htext : figureless text = true) :
    ¬Occurs part text := by
  intro hoccurs
  obtain ⟨first, hhead, hfirst⟩ := Figure.first_notMem hpart
  exact hfirst text htext (hoccurs.subset (List.mem_of_head? hhead))

theorem found_cons (first : Option String) (values : List (Option String)) :
    Found part (first :: values) ↔ (∃ text, first = some text ∧ Occurs part text) ∨
      Found part values := by
  constructor
  · rintro ⟨text, hmem, hoccurs⟩
    rcases List.mem_cons.mp hmem with rfl | hmem
    · exact .inl ⟨text, rfl, hoccurs⟩
    · exact .inr ⟨text, hmem, hoccurs⟩
  · rintro (⟨text, rfl, hoccurs⟩ | ⟨text, hmem, hoccurs⟩)
    · exact ⟨text, List.mem_cons_self, hoccurs⟩
    · exact ⟨text, List.mem_cons_of_mem first hmem, hoccurs⟩

theorem found_append (values values' : List (Option String)) :
    Found part (values ++ values') ↔ Found part values ∨ Found part values' := by
  simp only [Found, List.mem_append, or_and_right, exists_or]

-- The algorithm has no part that is a figure.
theorem found_algorithm (hpart : Figure part) {name : String} (values : List (Option String))
    (hname : figureless name = true) :
    Found part (shownAs (pythonEnv repr format encode) (.str name) :: values) ↔
      Found part values := by
  rw [found_cons, or_iff_right]
  rintro ⟨text, hshown, hoccurs⟩
  obtain rfl : name = text := shownAs_eq_some _ hshown
  exact not_occurs hpart hname hoccurs

theorem qpe_found (hpart : Figure part) :
    Occurs part (sheet (visible (qpeRows (pythonEnv repr format encode) fields parameters))) ↔
      Found part (qpeShown (pythonEnv repr format encode) fields parameters) := by
  have hlabels : ∀ row ∈ qpeRows (pythonEnv repr format encode) fields parameters,
      figureless (row.1 ++ ": ") = true := by
    simp only [qpeRows, List.forall_mem_cons]
    exact ⟨rfl, rfl, rfl, rfl, rfl, rfl, by simp⟩
  rw [occurs_rows hpart hlabels]
  exact @found_algorithm repr format encode part hpart "qpe" _ rfl

theorem dumps_trajectory (energies : List ℚ) :
    ((pythonEnv repr format encode).dumps (.arr (energies.map Json.float))).toList =
      '[' :: ((",".intercalate (energies.map fun energy => repr (.float energy))).toList ++
        [']']) := by
  change ("[" ++ ",".intercalate (dumpsItems repr (energies.map Json.float)) ++ "]").toList = _
  rw [dumpsItems_eq_map, List.map_map]
  simp only [String.toList_append]
  rfl

-- A part that has no comma and no bracket stands between the commas of the list.
theorem occurs_trajectory (hne : part.toList ≠ [])
    (hfree : ∀ separator ∈ ['[', ',', ']'], separator ∉ part.toList) (energies : List ℚ) :
    Occurs part ((pythonEnv repr format encode).dumps (.arr (energies.map Json.float))) ↔
      ∃ energy ∈ energies, Occurs part (repr (.float energy)) := by
  rw [Occurs, dumps_trajectory, ← List.nil_append ('[' :: _),
    infix_separated hne (hfree '[' (by simp)), infix_separated hne (hfree ']' (by simp))]
  have hitems := occurs_intercalate ',' hne (hfree ',' (by simp))
    (energies.map fun energy => repr (.float energy))
  simp only [List.mem_map, exists_exists_and_eq_and] at hitems
  rw [← hitems]
  simp only [List.infix_nil, hne, false_or, or_false]
  rfl

theorem foldl_min_mem (first : ℚ) (rest : List ℚ) : rest.foldl min first ∈ first :: rest :=
  List.min?_mem List.min?_cons'

theorem trajectory_found (hpart : Figure part) (energies : List ℚ) :
    Found part ((trajectoryRows (pythonEnv repr format encode) energies).map Prod.snd) ↔
      Found part (energies.map fun energy => some (figure (pythonEnv repr format encode) energy)) := by
  have hfound : Found part
      (energies.map fun energy => some (figure (pythonEnv repr format encode) energy)) ↔
        ∃ energy ∈ energies, Occurs part (repr (.float energy)) := by
    simp only [Found, List.mem_map, Option.some.injEq]
    constructor
    · rintro ⟨_, ⟨energy, hmem, rfl⟩, hoccurs⟩
      exact ⟨energy, hmem, hoccurs⟩
    · rintro ⟨energy, hmem, hoccurs⟩
      exact ⟨_, ⟨energy, hmem, rfl⟩, hoccurs⟩
  rw [hfound]
  cases energies with
  | nil => simp [trajectoryRows, Found]
  | cons first rest =>
      simp only [trajectoryRows, List.map_cons, List.map_nil, found_cons, Option.some.injEq,
        exists_eq_left']
      rw [← List.map_cons, occurs_trajectory hpart.toList_ne_nil
        (by simp only [List.forall_mem_cons]; exact ⟨hpart.free (by decide) (by decide),
          hpart.free (by decide) (by decide), hpart.free (by decide) (by decide), by simp⟩)]
      constructor
      · rintro (hinitial | hbest | htrajectory | ⟨_, hmem, -⟩)
        · exact ⟨first, List.mem_cons_self, hinitial⟩
        · exact ⟨_, foldl_min_mem first rest, hbest⟩
        · exact htrajectory
        · cases hmem
      · exact fun h => .inr (.inr (.inl h))

theorem vqe_found (hpart : Figure part) {molecule : String} {energies : List ℚ} :
    Occurs part (sheet (visible
        (vqeRows (pythonEnv repr format encode) fields parameters molecule energies))) ↔
      Found part (vqeShown (pythonEnv repr format encode) fields parameters molecule energies) := by
  have hlabels : ∀ row ∈ vqeRows (pythonEnv repr format encode) fields parameters molecule energies,
      figureless (row.1 ++ ": ") = true := by
    unfold vqeRows
    cases energies with
    | nil =>
        simp only [trajectoryRows, List.cons_append, List.nil_append, List.forall_mem_cons]
        exact ⟨rfl, rfl, rfl, rfl, rfl, rfl, rfl, rfl, rfl, by simp⟩
    | cons first rest =>
        simp only [trajectoryRows, List.cons_append, List.nil_append, List.forall_mem_cons]
        exact ⟨rfl, rfl, rfl, rfl, rfl, rfl, rfl, rfl, rfl, by simp⟩
  have hvalues : (vqeRows (pythonEnv repr format encode) fields parameters molecule energies).map
      Prod.snd = shownAs (pythonEnv repr format encode) (.str "vqe") ::
        ((vqeValues fields parameters molecule).map (shownAs (pythonEnv repr format encode)) ++
          (trajectoryRows (pythonEnv repr format encode) energies).map Prod.snd ++
          [shownError (pythonEnv repr format encode) fields]) := by
    simp only [vqeRows, vqeValues, List.map_append, List.map_cons, List.map_nil, List.cons_append,
      List.nil_append]
  rw [occurs_rows hpart hlabels, hvalues, found_algorithm hpart _ rfl, found_append,
    found_append, trajectory_found hpart, ← found_append, ← found_append]
  rfl

end found

section told

variable {repr : Json → String} {format : ℚ → String} {encode : String → String → List ℚ}
  {fields others parameters parameters' : List (String × Json)}

theorem OneLine.shown {value : Json} (h : OneLine env value) (text : String)
    (hshown : shownAs env value = some text) : '\n' ∉ text.toList :=
  shownAs_eq_some env hshown ▸ h

theorem qpe_ruled (hlines : ∀ value ∈ qpeValues fields parameters,
      OneLine (pythonEnv repr format encode) value) :
    Ruled "Error" (visible (qpeRows (pythonEnv repr format encode) fields parameters)) := by
  simp only [qpeValues, List.forall_mem_cons] at hlines
  obtain ⟨hstatus, hphi, hqubits, hshots, -⟩ := hlines
  have halgorithm : OneLine (pythonEnv repr format encode) (.str "qpe") := by
    change '\n' ∉ "qpe".toList
    decide
  refine Ruled.of_rows [("Algorithm", _), ("Status", _), ("True phase", _), ("Counting qubits", _),
    ("Shots", _)] ?_ (by decide) ?_
  · simp only [List.forall_mem_cons]
    decide
  · simp only [List.forall_mem_cons]
    exact ⟨halgorithm.shown, hstatus.shown, hphi.shown, hqubits.shown, hshots.shown, by simp⟩

-- Phase estimations with the same parameters are told apart by status and error alone.
theorem qpe_texts
    (hlines : ∀ value ∈ qpeValues fields parameters, OneLine (pythonEnv repr format encode) value)
    (hlines' : ∀ value ∈ qpeValues others parameters, OneLine (pythonEnv repr format encode) value) :
    sheet (visible (qpeRows (pythonEnv repr format encode) fields parameters)) =
        sheet (visible (qpeRows (pythonEnv repr format encode) others parameters)) ↔
      SamePrintedEnd (pythonEnv repr format encode) fields others := by
  rw [sheet_visible_inj (qpe_ruled hlines) (qpe_ruled hlines') rfl
    (by simp [qpeRows])]
  simp only [qpeRows, List.cons.injEq, Prod.mk.injEq, true_and, and_true]
  exact ⟨fun ⟨hstatus, herror⟩ => ⟨hstatus, herror⟩, fun ⟨hstatus, herror⟩ => ⟨hstatus, herror⟩⟩

variable (hrepr : ∀ value, Figure (repr (.float value)))
include hrepr

theorem figure_oneLine (energy : ℚ) : '\n' ∉ (figure (pythonEnv repr format encode) energy).toList :=
  (hrepr energy).free (by decide) (by decide)

theorem trajectory_oneLine (energies : List ℚ) :
    '\n' ∉ ((pythonEnv repr format encode).dumps (.arr (energies.map Json.float))).toList := by
  intro hmem
  have hoccurs := (@occurs_trajectory repr format encode "\n" (by decide)
    (by simp only [List.forall_mem_cons]; exact ⟨by decide, by decide, by decide, by simp⟩)
    energies).mp ((List.singleton_infix_iff _ _).mpr hmem)
  obtain ⟨energy, -, hinfix⟩ := hoccurs
  exact (hrepr energy).free (by decide) (by decide) ((List.singleton_infix_iff _ _).mp hinfix)

theorem vqe_ruled {molecule : String} {energies : List ℚ}
    (hlines : ∀ value ∈ vqeValues fields parameters molecule,
      OneLine (pythonEnv repr format encode) value) :
    Ruled "Error" (visible (vqeRows (pythonEnv repr format encode) fields parameters molecule
      energies)) := by
  simp only [vqeValues, List.forall_mem_cons] at hlines
  obtain ⟨hstatus, hmolecule, hshots, hiterations, -⟩ := hlines
  have halgorithm : OneLine (pythonEnv repr format encode) (.str "vqe") := by
    change '\n' ∉ "vqe".toList
    decide
  have htrajectory : ∀ row ∈ trajectoryRows (pythonEnv repr format encode) energies,
      (':' ∉ row.1.toList ∧ row.1 ≠ "Error") ∧ ∀ text, row.2 = some text → '\n' ∉ text.toList := by
    cases energies with
    | nil =>
        simp only [trajectoryRows, List.forall_mem_cons]
        exact ⟨⟨by decide, by simp⟩, ⟨by decide, by simp⟩, ⟨by decide, by simp⟩, by simp⟩
    | cons first rest =>
        simp only [trajectoryRows, List.forall_mem_cons]
        refine ⟨⟨by decide, ?_⟩, ⟨by decide, ?_⟩, ⟨by decide, ?_⟩, by simp⟩
        · exact fun _ heq => Option.some.inj heq ▸ figure_oneLine hrepr first
        · exact fun _ heq => Option.some.inj heq ▸ figure_oneLine hrepr _
        · exact fun _ heq => Option.some.inj heq ▸ trajectory_oneLine hrepr (first :: rest)
  have hhead : ∀ row ∈ [("Algorithm", shownAs (pythonEnv repr format encode) (.str "vqe")),
      ("Status", shownAs (pythonEnv repr format encode) (statusOf fields)),
      ("Molecule", shownAs (pythonEnv repr format encode) (shownMolecule parameters molecule)),
      ("Shots", shownAs (pythonEnv repr format encode) (argument parameters "shots" .null)),
      ("Maximum optimizer iterations",
        shownAs (pythonEnv repr format encode) (argument parameters "max_iterations" .null))],
      (':' ∉ row.1.toList ∧ row.1 ≠ "Error") ∧ ∀ text, row.2 = some text → '\n' ∉ text.toList := by
    simp only [List.forall_mem_cons]
    exact ⟨⟨by decide, halgorithm.shown⟩, ⟨by decide, hstatus.shown⟩, ⟨by decide, hmolecule.shown⟩,
      ⟨by decide, hshots.shown⟩, ⟨by decide, hiterations.shown⟩, by simp⟩
  have hrows := List.forall_mem_append.mpr ⟨hhead, htrajectory⟩
  exact Ruled.of_rows _ (fun row hmem => (hrows row hmem).1) (by decide)
    fun row hmem => (hrows row hmem).2

theorem dumps_inj {energies energies' : List ℚ} (hne : energies ≠ []) (hne' : energies' ≠ []) :
    (pythonEnv repr format encode).dumps (.arr (energies.map Json.float)) =
        (pythonEnv repr format encode).dumps (.arr (energies'.map Json.float)) ↔
      energies.map (figure (pythonEnv repr format encode)) =
        energies'.map (figure (pythonEnv repr format encode)) := by
  have hsplit : ∀ {energies : List ℚ}, energies ≠ [] →
      (",".intercalate (energies.map fun energy => repr (.float energy))).toList.splitOn ',' =
        (energies.map (figure (pythonEnv repr format encode))).map String.toList := by
    intro energies hne
    rw [String.toList_intercalate]
    refine List.splitOn_intercalate ',' (fun text hmem => ?_) (by simpa using hne)
    obtain ⟨item, hitem, rfl⟩ := List.mem_map.mp hmem
    obtain ⟨energy, -, rfl⟩ := List.mem_map.mp hitem
    exact (hrepr energy).free (by decide) (by decide)
  rw [← String.toList_inj, dumps_trajectory, dumps_trajectory, List.cons_inj_right,
    List.append_cancel_right_eq]
  constructor
  · intro h
    have hlists := hsplit hne
    rw [h, hsplit hne'] at hlists
    exact (List.map_injective_iff.mpr fun _ _ => String.toList_inj.mp) hlists.symm
  · intro h
    have htexts : (energies.map fun energy => repr (.float energy)) =
        energies'.map fun energy => repr (.float energy) := h
    rw [htexts]

-- The rows of a trajectory tell the energies one by one, and the least of them.
theorem trajectoryRows_inj {energies energies' : List ℚ} :
    trajectoryRows (pythonEnv repr format encode) energies =
        trajectoryRows (pythonEnv repr format encode) energies' ↔
      energies.map (figure (pythonEnv repr format encode)) =
          energies'.map (figure (pythonEnv repr format encode)) ∧
        energies.min?.map (figure (pythonEnv repr format encode)) =
          energies'.min?.map (figure (pythonEnv repr format encode)) := by
  cases energies with
  | nil => cases energies' <;> simp [trajectoryRows]
  | cons first rest =>
      cases energies' with
      | nil => simp [trajectoryRows]
      | cons first' rest' =>
          have hdumps := @dumps_inj repr format encode hrepr _ _ (List.cons_ne_nil first rest)
            (List.cons_ne_nil first' rest')
          simp only [trajectoryRows, List.cons.injEq, Prod.mk.injEq, Option.some.injEq, true_and,
            and_true, List.min?_cons', Option.map_some, hdumps]
          constructor
          · rintro ⟨-, hbest, htrajectory⟩
            exact ⟨htrajectory, hbest⟩
          · rintro ⟨htrajectory, hbest⟩
            exact ⟨(List.cons_eq_cons.mp htrajectory).1, hbest, htrajectory⟩

-- VQE runs are told apart by what they print of their ends, parameters and energies.
theorem vqe_texts {molecule molecule' : String} {energies energies' : List ℚ}
    (hlines : ∀ value ∈ vqeValues fields parameters molecule,
      OneLine (pythonEnv repr format encode) value)
    (hlines' : ∀ value ∈ vqeValues others parameters' molecule',
      OneLine (pythonEnv repr format encode) value) :
    sheet (visible (vqeRows (pythonEnv repr format encode) fields parameters molecule energies)) =
        sheet (visible (vqeRows (pythonEnv repr format encode) others parameters' molecule'
          energies')) ↔
      SamePrintedRun (pythonEnv repr format encode) fields others parameters parameters' molecule
        molecule' energies energies' := by
  have hlabels : ∀ energies, (trajectoryRows (pythonEnv repr format encode) energies).map Prod.fst =
      ["Initial energy (Ha)", "Best energy (Ha)", "Energy trajectory (Ha)"] := by
    intro energies
    cases energies <;> rfl
  have hlength : (trajectoryRows (pythonEnv repr format encode) energies).length =
      (trajectoryRows (pythonEnv repr format encode) energies').length := by
    rw [← List.length_map Prod.fst, hlabels, ← List.length_map Prod.fst, hlabels]
  rw [sheet_visible_inj (vqe_ruled hrepr hlines) (vqe_ruled hrepr hlines')]
  · rw [vqeRows, vqeRows, List.append_assoc, List.append_assoc]
    constructor
    · intro h
      obtain ⟨hhead, htail⟩ := List.append_inj h rfl
      obtain ⟨htrajectory, herror⟩ := List.append_inj htail hlength
      simp only [List.cons.injEq, Prod.mk.injEq, true_and, and_true] at hhead herror
      obtain ⟨hstatus, hmolecule, hshots, hiterations⟩ := hhead
      obtain ⟨hequal, hbest⟩ := (trajectoryRows_inj hrepr).mp htrajectory
      exact ⟨⟨hstatus, herror⟩, hmolecule, hshots, hiterations, hequal, hbest⟩
    · rintro ⟨⟨hstatus, herror⟩, hmolecule, hshots, hiterations, hequal, hbest⟩
      rw [(trajectoryRows_inj hrepr).mpr ⟨hequal, hbest⟩, hstatus, herror, hmolecule, hshots,
        hiterations]
  · simp only [vqeRows, List.map_append, List.map_cons, List.map_nil, hlabels]
  · simp only [vqeRows, List.map_append, List.map_cons, List.map_nil, hlabels]
    decide

end told

section figures

variable {repr : Json → String} {format : ℚ → String} {encode : String → String → List ℚ}

-- What an estimate consists of.
theorem countsWithEstimates_entries {numCountingQubits : ℕ} {counts : List (String × Int)}
    {entries : List (String × Json)}
    (h : Orchestrator.countsWithEstimates numCountingQubits counts = .ok entries) :
    ∀ entry ∈ entries, ∃ (count : Int) (phase : ℚ),
      entry.2 = .obj [("count", .int count), ("phi_estimate", .float phase)] := by
  induction counts generalizing entries with
  | nil =>
      obtain rfl := Except.ok.inj h
      simp
  | cons item rest ih =>
      obtain ⟨bitstring, count⟩ := item
      unfold Orchestrator.countsWithEstimates at h
      cases hvalue : Orchestrator.binaryValue bitstring with
      | error exc =>
          rw [hvalue] at h
          cases h
      | ok value =>
          cases hrest : Orchestrator.countsWithEstimates numCountingQubits rest with
          | error exc =>
              rw [hvalue, hrest] at h
              cases h
          | ok others =>
              rw [hvalue, hrest] at h
              obtain rfl := Except.ok.inj h
              exact List.forall_mem_cons.mpr ⟨⟨count, _, rfl⟩, ih hrest⟩

variable (hrepr : ∀ value, Figure (repr (.float value)))
include hrepr

theorem qpeParts_figures {phi : ℚ} {numCountingQubits : ℕ} {counts : Option (Dict String Int)}
    {results : Json} (h : Orchestrator.estimates numCountingQubits counts = .ok results) :
    ∀ part ∈ qpeParts (pythonEnv repr format encode) (qpeResult phi numCountingQubits results),
      Figure part := by
  have hnull : qpeParts (pythonEnv repr format encode) (qpeResult phi numCountingQubits .null) = [] :=
    rfl
  cases counts with
  | none =>
      obtain rfl := Except.ok.inj h
      simp [hnull]
  | some counts =>
      unfold Orchestrator.estimates at h
      simp only at h
      split_ifs at h
      · obtain rfl := Except.ok.inj h
        simp [hnull]
      · obtain ⟨entries, hentries, rfl⟩ := map_eq_ok.mp h
        intro part hpart
        obtain ⟨entry, hmem, hpart⟩ := List.mem_flatMap.mp hpart
        obtain ⟨count, phase, hentry⟩ := countsWithEstimates_entries hentries entry hmem
        rw [hentry] at hpart
        simp only [List.mem_cons, List.not_mem_nil, or_false] at hpart
        rcases hpart with rfl | rfl
        · exact hrepr phase
        · exact int_figure count

theorem vqeParts_figures (molecule : MolecularHamiltonian) (summary : Orchestrator.VQEResult) :
    ∀ part ∈ vqeParts (pythonEnv repr format encode) (vqeResult molecule summary), Figure part := by
  intro part hpart
  simp only [vqeParts, List.mem_cons, List.not_mem_nil, or_false] at hpart
  rcases hpart with rfl | rfl
  · exact hrepr summary.totalEnergy
  · exact int_figure summary.history.length

end figures

variable {env} {fields others : List (String × Json)}

theorem shows_iff {parts : List String} {text : String}
    (htext : canonicalExperimentText env (.obj fields) = .ok text) :
    Shows env fields parts ↔ ∀ part ∈ parts, Occurs part text := by
  simp only [Shows, htext, Except.ok.injEq, exists_eq_left', Carries, occurs_iff]

theorem tells_iff {result other : Json} {name text text' : String}
    (htext : canonicalExperimentText env (.obj fields) = .ok text)
    (htext' : canonicalExperimentText env (.obj others) = .ok text') :
    Tells env fields others result other name ↔
      valueOf result name = valueOf other name ∨ text ≠ text' := by
  rw [Tells, htext, htext', ne_eq, ne_eq, Except.ok.injEq]
  constructor
  · intro htells
    by_cases hequal : valueOf result name = valueOf other name
    · exact .inl hequal
    · exact .inr (htells hequal)
  · rintro (hequal | hdiffer) hne
    · exact absurd hequal hne
    · exact hdiffer

theorem tells_iff_equal {result other : Json} {name text : String}
    (htext : canonicalExperimentText env (.obj fields) = .ok text)
    (htext' : canonicalExperimentText env (.obj others) = .ok text) :
    Tells env fields others result other name ↔ valueOf result name = valueOf other name := by
  rw [tells_iff htext htext', or_iff_left (not_not_intro rfl)]

theorem shownError_congr (h : SameEnd fields others) : shownError env fields = shownError env others := by
  unfold shownError
  rw [h.2]

section runs

def floatRepr : Json → String
  | .float value => floatText value
  | _ => ""

def plainEnv : Env := pythonEnv floatRepr (fun _ => "") fun _ _ => []

def plainFields (algorithm : String) (parameters : List (String × Json)) (result : Json) :
    List (String × Json) :=
  [("algorithm", .str algorithm), ("status", .str "completed"), ("parameters", .obj parameters),
    ("result", result)]

theorem plainFields_completed (algorithm : String) (parameters : List (String × Json)) (result : Json) :
    CompletedWith (plainFields algorithm parameters result) algorithm parameters result :=
  ⟨rfl, rfl, rfl⟩

-- One shot of a phase estimation with one qubit, and its result.
def histogramOf (bitstring : String) : Dict String Int := ⟨[(bitstring, 1)], by simp⟩

def estimated (phi : ℚ) (bitstring : String) (value : ℕ) : Json :=
  qpeResult phi 1 (.obj [(bitstring, .obj [("count", .int 1),
    ("phi_estimate", .float ((value : ℚ) / 2 ^ 1))])])

theorem exists_runQpe (phi : ℚ) {bitstring : String} {value : ℕ}
    (hvalue : Orchestrator.binaryValue bitstring = .ok value) : ∃ events,
    (Orchestrator.runQpe ⟨{}, default, 1⟩ phi 1 (.int 1)).run.Returns events
      (.ok (estimated phi bitstring value)) := by
  let handle : JobHandle := ⟨"job", "qpu"⟩
  let result : ExperimentResult := ⟨"job", .completed, some (histogramOf bitstring), none⟩
  have hawaited := Orchestrator.waitOnce_fetches handle ⟨{}, default, 1⟩ Nat.one_pos result
    (.inl rfl)
  have hsubmitted : ∀ experiment, (Orchestrator.submit experiment).run.Returns
      [⟨Orchestrator.Effect.submit experiment, .ok handle⟩] (.ok handle) := fun _ =>
    @Program.Trace.step Orchestrator.sig _ (.submit _) _ (.ok handle) _ _ (.stop _)
  have hcounts : Orchestrator.countsWithEstimates 1 (histogramOf bitstring).items =
      .ok [(bitstring, .obj [("count", .int 1),
        ("phi_estimate", .float ((value : ℚ) / 2 ^ 1))])] := by
    simp only [histogramOf, Orchestrator.countsWithEstimates, hvalue]
    rfl
  unfold Orchestrator.runQpe
  refine ⟨_ ++ (_ ++ []), Py.returns_then (hsubmitted _) (Py.returns_then hawaited ?_)⟩
  simp only [result, hcounts]
  exact .stop _

-- An optimizer that stops at once, at this energy.
def stopping (value : ℚ) : Orchestrator.Env :=
  ⟨{}, { (default : Orchestrator.Externals) with minimize := fun _ _ => .finished [] value }, 1⟩

theorem stopping_returns (value : ℚ) :
    (Orchestrator.runVqeSync (stopping value) (.int 1) (.int 1) (.str "h2")).run.Returns []
      (.ok (vqeResult H2 ⟨[], value, value + H2.totalEnergyOffset, []⟩, [])) :=
  .stop _

end runs

-- A text carries a figure of the result only where it is also printed for another field of the
-- record: for a phase estimation its status, its parameters or an error, for a VQE run these, the
-- molecule or an energy of the history. Two records are told apart by these fields alone: two
-- phase estimations with the same parameters that end alike never are, whatever they have
-- measured.
theorem canonical_text_carries_iff (repr : Json → String) (format : ℚ → String)
    (encode : String → String → List ℚ) (hrepr : ∀ value, Figure (repr (.float value))) :
    (∀ (oenv : Orchestrator.Env) (phi : ℚ) (numCountingQubits : ℕ) (shots : Json) events result,
      (Orchestrator.runQpe oenv phi numCountingQubits shots).run.Returns events (.ok result) →
      ∀ fields parameters, CompletedWith fields "qpe" parameters result →
      (Shows (pythonEnv repr format encode) fields
          (qpeParts (pythonEnv repr format encode) result) ↔
        ∀ part ∈ qpeParts (pythonEnv repr format encode) result,
          Found part (qpeShown (pythonEnv repr format encode) fields parameters)) ∧
      ∀ (oenv : Orchestrator.Env) (phi : ℚ) (numCountingQubits : ℕ) (shots : Json) events other,
        (Orchestrator.runQpe oenv phi numCountingQubits shots).run.Returns events (.ok other) →
        ∀ others, CompletedWith others "qpe" parameters other →
        (SameEnd fields others →
          (Tells (pythonEnv repr format encode) fields others result other "results" ↔
            valueOf result "results" = valueOf other "results")) ∧
        ((∀ value ∈ qpeValues fields parameters, OneLine (pythonEnv repr format encode) value) →
          (∀ value ∈ qpeValues others parameters, OneLine (pythonEnv repr format encode) value) →
          (Tells (pythonEnv repr format encode) fields others result other "results" ↔
            valueOf result "results" = valueOf other "results" ∨
              ¬SamePrintedEnd (pythonEnv repr format encode) fields others))) ∧
    ∀ (oenv : Orchestrator.Env) (shots maxIterations name : Json) events result history,
      (Orchestrator.runVqeSync oenv shots maxIterations name).run.Returns events
        (.ok (result, history)) →
      ∀ fields parameters, CompletedWith fields "vqe" parameters result →
      ∃ molecule, valueOf result "molecule" = .str molecule ∧
      (Shows (pythonEnv repr format encode) fields
          (vqeParts (pythonEnv repr format encode) result) ↔
        ∀ part ∈ vqeParts (pythonEnv repr format encode) result,
          Found part (vqeShown (pythonEnv repr format encode) fields parameters molecule
            (history.map fun log => log.energy))) ∧
      ∀ (oenv : Orchestrator.Env) (shots maxIterations name : Json) events other history',
        (Orchestrator.runVqeSync oenv shots maxIterations name).run.Returns events
          (.ok (other, history')) →
        ∀ others parameters', CompletedWith others "vqe" parameters' other →
        ∃ molecule', valueOf other "molecule" = .str molecule' ∧
        (SameEnd fields others → parameters = parameters' → molecule = molecule' →
          (history.map fun log => log.energy) = (history'.map fun log => log.energy) →
          (Tells (pythonEnv repr format encode) fields others result other "total_energy" ↔
            valueOf result "total_energy" = valueOf other "total_energy")) ∧
        ((∀ value ∈ vqeValues fields parameters molecule,
            OneLine (pythonEnv repr format encode) value) →
          (∀ value ∈ vqeValues others parameters' molecule',
            OneLine (pythonEnv repr format encode) value) →
          (Tells (pythonEnv repr format encode) fields others result other "total_energy" ↔
            valueOf result "total_energy" = valueOf other "total_energy" ∨
              ¬SamePrintedRun (pythonEnv repr format encode) fields others parameters parameters'
                molecule molecule' (history.map fun log => log.energy)
                (history'.map fun log => log.energy))) := by
  constructor
  · intro oenv phi numCountingQubits shots events result hreturns fields parameters hcompleted
    obtain ⟨counts, results, hresults, rfl⟩ := runQpe_result hreturns
    have htext := @qpe_text repr format encode _ _ hrepr _ _ _ hcompleted
    refine ⟨?_, ?_⟩
    · rw [shows_iff htext]
      exact forall₂_congr fun part hpart => qpe_found (qpeParts_figures hrepr hresults part hpart)
    · intro oenv phi numCountingQubits shots events other hother others hothers
      obtain ⟨counts', results', hresults', rfl⟩ := runQpe_result hother
      have htext' := @qpe_text repr format encode _ _ hrepr _ _ _ hothers
      refine ⟨fun hsame => tells_iff_equal htext ?_, fun hlines hlines' => ?_⟩
      · have hrows : qpeRows (pythonEnv repr format encode) fields parameters =
            qpeRows (pythonEnv repr format encode) others parameters := by
          rw [qpeRows, statusOf, hsame.1, shownError_congr hsame]
          rfl
        rw [hrows]
        exact htext'
      · rw [tells_iff htext htext', ne_eq, qpe_texts hlines hlines']
  · intro oenv shots maxIterations name events result history hreturns fields parameters hcompleted
    obtain ⟨molecule, summary, rfl, rfl⟩ := runVqeSync_result hreturns
    have htext := @vqe_text repr format encode _ _ hrepr _ _ hcompleted
    refine ⟨molecule.name, rfl, ?_, ?_⟩
    · rw [shows_iff htext]
      exact forall₂_congr fun part hpart => vqe_found (vqeParts_figures hrepr molecule summary part hpart)
    · intro oenv shots maxIterations name events other history' hother others parameters' hothers
      obtain ⟨molecule', summary', rfl, rfl⟩ := runVqeSync_result hother
      have htext' := @vqe_text repr format encode _ _ hrepr _ _ hothers
      refine ⟨molecule'.name, rfl, ?_, fun hlines hlines' => ?_⟩
      · rintro hsame rfl hmolecule hhistory
        have hrows : vqeRows (pythonEnv repr format encode) fields parameters molecule.name
            (summary.history.map fun log => log.energy) =
            vqeRows (pythonEnv repr format encode) others parameters molecule'.name
              (summary'.history.map fun log => log.energy) := by
          rw [vqeRows, statusOf, hsame.1, shownError_congr hsame, hmolecule, hhistory]
          rfl
        rw [hrows] at htext
        exact tells_iff_equal htext htext'
      · rw [tells_iff htext htext', ne_eq, vqe_texts hrepr hlines hlines']

-- A phase estimation whose figures are those of its parameters, one that measures something else
-- and has the same text, and two VQE runs of different energy with one text, which has neither.
theorem canonical_text_carries_iff_measured :
    Shows plainEnv (plainFields "qpe" [("phi", .float (1 / 2)), ("shots", .int 1)]
        (estimated (1 / 2) "1" 1)) (qpeParts plainEnv (estimated (1 / 2) "1" 1)) ∧
      ¬Tells plainEnv
        (plainFields "qpe" [("phi", .float (1 / 2)), ("shots", .int 1)] (estimated (1 / 2) "1" 1))
        (plainFields "qpe" [("phi", .float (1 / 2)), ("shots", .int 1)] (estimated (1 / 2) "0" 0))
        (estimated (1 / 2) "1" 1) (estimated (1 / 2) "0" 0) "results" ∧
      ¬Shows plainEnv
        (plainFields "vqe" [] (vqeResult H2 ⟨[], 0, 0 + H2.totalEnergyOffset, []⟩))
        (vqeParts plainEnv (vqeResult H2 ⟨[], 0, 0 + H2.totalEnergyOffset, []⟩)) ∧
      ¬Tells plainEnv
        (plainFields "vqe" [] (vqeResult H2 ⟨[], 0, 0 + H2.totalEnergyOffset, []⟩))
        (plainFields "vqe" [] (vqeResult H2 ⟨[], 1, 1 + H2.totalEnergyOffset, []⟩))
        (vqeResult H2 ⟨[], 0, 0 + H2.totalEnergyOffset, []⟩)
        (vqeResult H2 ⟨[], 1, 1 + H2.totalEnergyOffset, []⟩) "total_energy" := by
  obtain ⟨events, hreturns⟩ := @exists_runQpe (1 / 2) "1" 1 rfl
  obtain ⟨events', hreturns'⟩ := @exists_runQpe (1 / 2) "0" 0 rfl
  have hcarries := canonical_text_carries_iff floatRepr (fun _ => "") (fun _ _ => [])
    floatText_figure
  obtain ⟨hshows, hpairs⟩ := hcarries.1 _ _ _ _ _ _ hreturns _ _ (plainFields_completed "qpe"
    [("phi", .float (1 / 2)), ("shots", .int 1)] _)
  obtain ⟨molecule, hmolecule, hvqe, hruns⟩ := hcarries.2 _ _ _ _ _ _ _ (stopping_returns 0) _ _
    (plainFields_completed "vqe" [] _)
  refine ⟨hshows.mpr ?_, ?_, mt hvqe.mp ?_, ?_⟩
  · have hparts : qpeParts plainEnv (estimated (1 / 2) "1" 1) = ["0.5", "1"] := by decide +kernel
    have hshown : qpeShown plainEnv (plainFields "qpe" [("phi", .float (1 / 2)), ("shots", .int 1)]
        (estimated (1 / 2) "1" 1)) [("phi", .float (1 / 2)), ("shots", .int 1)] =
          [some "completed", some "0.5", none, some "1", none] := by decide +kernel
    change ∀ part ∈ qpeParts plainEnv _, Found part (qpeShown plainEnv _ _)
    rw [hparts, hshown]
    simp only [List.forall_mem_cons]
    exact ⟨⟨"0.5", by decide, List.infix_rfl⟩, ⟨"1", by decide, List.infix_rfl⟩, by simp⟩
  · refine mt ((hpairs _ _ _ _ _ _ hreturns' _ (plainFields_completed _ _ _)).1 ⟨rfl, rfl⟩).mp ?_
    intro hequal
    simp [valueOf, estimated, qpeResult, argument, findField] at hequal
  · intro hfound
    have hpart : "0.7055696146" ∈ vqeParts plainEnv
        (vqeResult H2 ⟨[], 0, 0 + H2.totalEnergyOffset, []⟩) := by decide +kernel
    obtain ⟨text, hmem, hoccurs⟩ := hfound _ hpart
    obtain rfl : "h2" = molecule := Json.str.inj hmolecule
    have hshown : vqeShown plainEnv (plainFields "vqe" []
        (vqeResult H2 ⟨[], 0, 0 + H2.totalEnergyOffset, []⟩)) [] "h2" [] =
          [some "completed", some "h2", none, none, none] := by decide +kernel
    change some text ∈ vqeShown plainEnv _ _ _ [] at hmem
    rw [hshown] at hmem
    simp only [List.mem_cons, Option.some.injEq, reduceCtorEq, List.not_mem_nil, or_false] at hmem
    rcases hmem with rfl | rfl
    · revert hoccurs
      unfold Occurs
      decide
    · revert hoccurs
      unfold Occurs
      decide
  · obtain ⟨molecule', hmolecule', hiff, -⟩ := hruns _ _ _ _ _ _ _ (stopping_returns 1) _ _
      (plainFields_completed _ _ _)
    refine mt (hiff ⟨rfl, rfl⟩ rfl (Json.str.inj (hmolecule.symm.trans hmolecule')) rfl).mp ?_
    intro hequal
    simp [valueOf, vqeResult, argument, findField] at hequal

-- Two histograms with the same parameters, and one text.
theorem not_canonical_text_carries :
    ¬ ∀ (oenv : Orchestrator.Env) (phi : ℚ) (numCountingQubits : ℕ) (shots : Json) events result,
      (Orchestrator.runQpe oenv phi numCountingQubits shots).run.Returns events (.ok result) →
      ∀ fields parameters, CompletedWith fields "qpe" parameters result →
      ∀ (oenv : Orchestrator.Env) (phi : ℚ) (numCountingQubits : ℕ) (shots : Json) events other,
      (Orchestrator.runQpe oenv phi numCountingQubits shots).run.Returns events (.ok other) →
      ∀ others, CompletedWith others "qpe" parameters other →
      Tells plainEnv fields others result other "results" := by
  intro h
  obtain ⟨events, hreturns⟩ := @exists_runQpe 0 "0" 0 rfl
  obtain ⟨events', hreturns'⟩ := @exists_runQpe 0 "1" 1 rfl
  have htells := h _ _ _ _ _ _ hreturns _ _ (plainFields_completed "qpe"
    [("phi", .float 0), ("num_counting_qubits", .int 1), ("shots", .int 1)] _)
    _ _ _ _ _ _ hreturns' _ (plainFields_completed _ _ _)
  refine htells ?_ ?_
  · simp [valueOf, estimated, qpeResult, argument, findField]
  · have htext : ∀ bitstring value, canonicalExperimentText plainEnv (.obj (plainFields "qpe"
        [("phi", .float 0), ("num_counting_qubits", .int 1), ("shots", .int 1)]
        (estimated 0 bitstring value))) =
          .ok (sheet (visible (qpeRows plainEnv (plainFields "qpe" [] .null)
            [("phi", .float 0), ("num_counting_qubits", .int 1), ("shots", .int 1)]))) :=
      fun _ _ => qpe_text floatText_figure (plainFields_completed _ _ _)
    rw [htext, htext]

end carries

end QuantumPlatform.Indexer
