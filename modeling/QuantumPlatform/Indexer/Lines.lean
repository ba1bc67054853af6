import QuantumPlatform.Indexer.Text
import QuantumPlatform.Python.Floats
import Mathlib.Data.List.Infix

namespace QuantumPlatform.Indexer

open Process Python

section suffix

-- The filter takes a text for an absent value's if it ends like this after a label.
def noneLike (text : String) : Bool := text = "None" || text.endsWith ": None"

theorem endsWith_iff (text pattern : String) :
    text.endsWith pattern = true ↔ pattern.toList <:+ text.toList := by
  rw [String.endsWith_eq_endsWith_toSlice, String.Slice.endsWith_string_iff, String.copy_toSlice]

theorem noneLike_iff (text : String) : noneLike text = true ↔
    text.toList = "None".toList ∨ ": None".toList <:+ text.toList := by
  rw [noneLike, Bool.or_eq_true, endsWith_iff, decide_eq_true_iff, String.toList_inj]

-- A suffix that starts inside the label would have a blank where the letters are.
theorem suffix_none_iff (label text : List Char) :
    ": None".toList <:+ label ++ ": ".toList ++ text ↔
      text = "None".toList ∨ ": None".toList <:+ text := by
  constructor
  · intro h
    rcases List.suffix_or_suffix_of_suffix h (List.suffix_append _ text) with hlong | hshort
    · exact .inr hlong
    · obtain ⟨before, hbefore⟩ := h
      have hreverse := congrArg List.reverse hbefore
      have hmem := (List.mem_tails text ": None".toList).mpr hshort
      simp [List.tails] at hmem hreverse
      rcases hmem with rfl | rfl | rfl | rfl | rfl | rfl | rfl
      · exact .inr (List.suffix_refl _)
      · simp at hreverse
      · exact .inl rfl
      · simp at hreverse
      · simp at hreverse
      · simp at hreverse
      · simp at hreverse
  · rintro (rfl | h)
    · exact ⟨label, by simp⟩
    · exact h.trans (List.suffix_append _ text)

theorem labelled_endsWith (label text : String) :
    (label ++ ": " ++ text).endsWith ": None" = noneLike text := by
  rw [Bool.eq_iff_iff, endsWith_iff, noneLike_iff, String.toList_append, String.toList_append]
  exact suffix_none_iff label.toList text.toList

theorem getLast?_of_noneLike {text : String} (h : noneLike text = true) :
    text.toList.getLast? = some ('e') := by
  rcases (noneLike_iff text).mp h with heq | ⟨before, hbefore⟩
  · rw [heq]
    rfl
  · rw [← hbefore]
    simp

end suffix

section values

-- A string that reads like an absent value once it stands behind a label.
def looksAbsent : Json → Bool
  | .str text => noneLike text
  | _ => false

-- What ends in another letter is not taken for absent.
theorem not_noneLike_of_getLast? {text : String} {char : Char}
    (h : text.toList.getLast? = some char) (hne : char ≠ 'e') : noneLike text = false := by
  refine Bool.eq_false_iff.mpr fun hlike => hne ?_
  exact Option.some.inj (h.symm.trans (getLast?_of_noneLike hlike))

theorem append_not_noneLike (text : String) {last : String} {char : Char}
    (hlast : last.toList = [char]) (hne : char ≠ 'e') : noneLike (text ++ last) = false := by
  refine not_noneLike_of_getLast? ?_ hne
  rw [String.toList_append, hlast, List.getLast?_concat]

-- A number is printed up to its last digit.
theorem number_not_noneLike {text : String} (h : text.toList.getLast?.any Char.isDigit = true) :
    noneLike text = false := by
  obtain ⟨char, hlast, hdigit⟩ := (Option.any_eq_true _ _).mp h
  refine not_noneLike_of_getLast? hlast ?_
  rintro rfl
  exact absurd hdigit (by decide)

variable {repr : Json → String} (format : ℚ → String) (encode : String → String → List ℚ)

variable (hrepr : ∀ value, (repr (.float value)).toList.getLast?.any Char.isDigit = true)
include hrepr

theorem line_dropped (label : String) (value : Json) :
    (line (pythonEnv repr format encode) label value).endsWith ": None" =
      (isNone value || looksAbsent value) := by
  unfold line
  rw [labelled_endsWith]
  cases value with
  | null =>
      change noneLike "None" = true
      decide +kernel
  | bool value =>
      cases value with
      | false =>
          change noneLike "False" = false
          decide +kernel
      | true =>
          change noneLike "True" = false
          decide +kernel
  | int value => exact number_not_noneLike (int_figure value).last
  | float value => exact number_not_noneLike (hrepr value)
  | str text => rfl
  | arr items =>
      exact @append_not_noneLike ("[" ++ _) "]" ']' rfl (by decide)
  | obj fields =>
      exact @append_not_noneLike (String.singleton '{' ++ _) (String.singleton '}') '}' rfl (by decide)

end values

-- The fields that a branch selects, by label, with the values it renders. A line stands for
-- each, until the filter.
section selection

variable (env : Env)

def selectField (label : String) (value : Json) (name : String) : Except Exc (String × Json) := do
  return (label, ← get value name)

def vqeFields (parameters result : Json) : Except Exc (List (String × Json)) := do
  let molecule ← orElse (← get parameters "molecule") do
    orElse (← get result "molecule") (.ok (.str "h2"))
  let fields := [("Molecule", molecule),
    ← selectField "Shots" parameters "shots",
    ← selectField "Maximum optimizer iterations" parameters "max_iterations",
    ← selectField "Energy (Ha)" result "energy",
    ← selectField "Optimizer iterations" result "iterations",
    ← selectField "Converged" result "converged"]
  let history ← orElse (← get result "history") (.ok (.arr []))
  let energies ← energiesOf history
  match energies with
  | [] => return fields
  | first :: _ =>
      return fields ++ [("Initial energy (Ha)", first), ("Best energy (Ha)", ← env.min energies),
        ("Energy trajectory (Ha)", .arr energies)]

def groverFields (parameters result : Json) : Except Exc (List (String × Json)) := do
  return [← selectField "Shots" parameters "shots",
    ← selectField "Marked states" parameters "marked_states",
    ← selectField "Boolean expression" parameters "expression",
    ← selectField "Measurement counts" result "counts"]

def qpeFields (parameters result : Json) : Except Exc (List (String × Json)) := do
  return [← selectField "True phase" parameters "phi",
    ← selectField "Counting qubits" parameters "num_counting_qubits",
    ← selectField "Shots" parameters "shots",
    ← selectField "Estimated phase" result "estimated_phase",
    ← selectField "Measurement counts" result "counts"]

def algorithmFields (algorithm parameters result : Json) : Except Exc (List (String × Json)) :=
  if algorithm.isStr "vqe" then vqeFields env parameters result
  else if !algorithm.hashable then .error (Exc.typeError "unhashable type")
  else if algorithm.isStr "grover" || algorithm.isStr "sat_grover" then
    groverFields parameters result
  else if algorithm.isStr "qpe" then qpeFields parameters result
  else .ok [("Parameters", parameters), ("Result", result)]

def describe (experiment : Json) : Except Exc (List (String × Json)) := do
  let algorithm ← subscript experiment "algorithm"
  let parameters ← orElse (← get experiment "parameters") (.ok (.obj []))
  let result ← orElse (← get experiment "result") (.ok (.obj []))
  let status ← getOr experiment "status" (.str "unknown")
  let specific ← algorithmFields env algorithm parameters result
  return [("Algorithm", algorithm), ("Status", status)] ++ specific

def errorField (error : Json) : List (String × Json) :=
  if truthy error then [("Error", error)] else []

def selected (experiment : Json) : Except Exc (List (String × Json)) := do
  let fields ← describe env experiment
  let error ← get experiment "error"
  return fields ++ errorField error

def fieldLines (fields : List (String × Json)) : List String :=
  fields.map fun field => line env field.1 field.2

-- The lines that the filter lets through.
def shownLines (fields : List (String × Json)) : List String :=
  (fieldLines env fields).filter fun text => !text.endsWith ": None"

theorem fieldLine_eq (label : String) (value : Json) (name : String) :
    fieldLine env label value name =
      (fun field => line env field.1 field.2) <$> selectField label value name := by
  simp only [fieldLine, selectField, map_bind, map_pure]

theorem vqeLines_eq (parameters result : Json) :
    vqeLines env parameters result = fieldLines env <$> vqeFields env parameters result := by
  simp only [vqeLines, vqeFields, fieldLine_eq, bind_map_left, map_bind]
  refine bind_congr fun given => bind_congr fun molecule => ?_
  refine bind_congr fun shots => bind_congr fun iterations => bind_congr fun energy => ?_
  refine bind_congr fun steps => bind_congr fun converged => bind_congr fun found => ?_
  refine bind_congr fun history => bind_congr fun energies => ?_
  cases energies with
  | nil => rfl
  | cons first rest =>
      simp only [map_bind, map_pure, fieldLines, List.map_append, List.map_cons, List.map_nil]

theorem groverLines_eq (parameters result : Json) :
    groverLines env parameters result = fieldLines env <$> groverFields parameters result := by
  simp only [groverLines, groverFields, fieldLine_eq, bind_map_left, map_bind, map_pure, fieldLines,
    List.map_cons, List.map_nil]

theorem qpeLines_eq (parameters result : Json) :
    qpeLines env parameters result = fieldLines env <$> qpeFields parameters result := by
  simp only [qpeLines, qpeFields, fieldLine_eq, bind_map_left, map_bind, map_pure, fieldLines,
    List.map_cons, List.map_nil]

theorem algorithmLines_eq (algorithm parameters result : Json) :
    algorithmLines env algorithm parameters result =
      fieldLines env <$> algorithmFields env algorithm parameters result := by
  unfold algorithmLines algorithmFields
  split_ifs
  · exact vqeLines_eq env parameters result
  · rfl
  · exact groverLines_eq env parameters result
  · exact qpeLines_eq env parameters result
  · rfl

-- The text is made of the lines of the selected fields, less those that the filter drops.
theorem canonicalExperimentText_selected (experiment : Json) :
    canonicalExperimentText env experiment =
      (fun fields => "\n".intercalate (shownLines env fields)) <$> selected env experiment := by
  simp only [canonicalExperimentText, selected, describe, algorithmLines_eq, bind_map_left,
    map_bind, map_pure, bind_assoc, pure_bind]
  refine bind_congr fun algorithm => bind_congr fun given => bind_congr fun parameters => ?_
  refine bind_congr fun returned => bind_congr fun result => bind_congr fun status => ?_
  refine bind_congr fun specific => bind_congr fun error => ?_
  by_cases herror : truthy error = true
  · simp [shownLines, fieldLines, errorField, herror]
  · simp [shownLines, fieldLines, errorField, herror]

end selection

section joining

-- One line more adds a separator, if anything, and itself.
theorem intercalate_concat (lines : List String) :
    ∃ separator, ∀ last, "\n".intercalate (lines ++ [last]) =
      "\n".intercalate lines ++ separator ++ last := by
  by_cases hne : lines = []
  · exact ⟨"", fun last => by simp [hne]⟩
  · refine ⟨"\n", fun last => ?_⟩
    rw [String.intercalate_append_of_ne_nil hne (by simp), String.intercalate_singleton]

end joining

-- Two records that differ in what went wrong.
structure DifferInErrors (fields others : List (String × Json)) (message message' : String) :
    Prop where
  rest : ∀ name, name ≠ "error" → findField fields name = findField others name
  first : findField fields "error" = some (.str message)
  second : findField others "error" = some (.str message')
  nonempty : message ≠ ""
  nonempty' : message' ≠ ""
  ne : message ≠ message'

-- A selected field leaves its line in the text unless it is None, and an error is in the text
-- and makes a difference there.
structure DropsOnlyAbsent (env : Env) (experiment : Json) : Prop where
  lines : ∀ fields, selected env experiment = .ok fields → ∀ field ∈ fields,
    (line env field.1 field.2 ∈ shownLines env fields ↔ field.2 ≠ .null)
  error : ∀ text message, canonicalExperimentText env experiment = .ok text →
    get experiment "error" = .ok (.str message) → message ≠ "" →
      ∃ before after, text = before ++ message ++ after
  told : ∀ fields others message message', experiment = .obj fields →
    DifferInErrors fields others message message' →
      ∀ text, canonicalExperimentText env experiment = .ok text →
        canonicalExperimentText env (.obj others) ≠ .ok text

section dropping

variable {repr : Json → String} {format : ℚ → String} {encode : String → String → List ℚ}
  (hrepr : ∀ value, (repr (.float value)).toList.getLast?.any Char.isDigit = true)
  {experiment : Json} {message : String}
include hrepr

theorem shown_iff {fields : List (String × Json)} {field : String × Json} (hmem : field ∈ fields) :
    line (pythonEnv repr format encode) field.1 field.2 ∈
        shownLines (pythonEnv repr format encode) fields ↔
      field.2 ≠ .null ∧ looksAbsent field.2 = false := by
  have hline := List.mem_map_of_mem (f := fun field : String × Json =>
    line (pythonEnv repr format encode) field.1 field.2) hmem
  have hnull : isNone field.2 = true ↔ field.2 = .null := by
    cases field.2 <;> simp [isNone]
  rw [shownLines, List.mem_filter, line_dropped format encode hrepr, fieldLines]
  simp only [hline, true_and, Bool.not_eq_true', Bool.or_eq_false_iff]
  rw [← Bool.not_eq_true, hnull]

omit hrepr in
theorem selected_error (env : Env) (herror : get experiment "error" = .ok (.str message))
    (hne : message ≠ "") :
    selected env experiment =
      (fun fields => fields ++ [("Error", .str message)]) <$> describe env experiment := by
  have htruthy : truthy (.str message) = true := by simpa [truthy] using hne
  simp only [selected, herror, ok_bind, errorField, htruthy, if_true, map_eq_pure_bind]

-- The error stands at the end, if at all.
theorem text_error (herror : get experiment "error" = .ok (.str message)) (hne : message ≠ "") :
    canonicalExperimentText (pythonEnv repr format encode) experiment =
      (fun fields => "\n".intercalate (shownLines (pythonEnv repr format encode) fields ++
        if noneLike message then [] else ["Error" ++ ": " ++ message])) <$>
          describe (pythonEnv repr format encode) experiment := by
  rw [canonicalExperimentText_selected, selected_error _ herror hne, Functor.map_map]
  refine congrArg (fun shown => shown <$> _) (funext fun fields => ?_)
  have hdropped := line_dropped format encode hrepr "Error" (.str message)
  simp only [isNone, Bool.false_or, looksAbsent] at hdropped
  rw [shownLines, fieldLines, List.map_append, List.filter_append]
  congr 2
  cases hlike : noneLike message with
  | true => simp [hdropped, hlike]
  | false =>
      rw [hlike] at hdropped
      simp [hdropped]
      rfl

omit hrepr in
theorem describe_eq (env : Env) {fields others : List (String × Json)} {message' : String}
    (h : DifferInErrors fields others message message') :
    describe env (.obj fields) = describe env (.obj others) := by
  have halgorithm := h.rest "algorithm" (by decide)
  have hparameters := h.rest "parameters" (by decide)
  have hresult := h.rest "result" (by decide)
  have hstatus := h.rest "status" (by decide)
  simp only [describe, subscript, get, getOr, argument, halgorithm, hparameters, hresult, hstatus]

omit hrepr in
theorem get_error {fields : List (String × Json)}
    (h : findField fields "error" = some (.str message)) :
    get (.obj fields) "error" = .ok (.str message) := by
  simp only [get, getOr, argument, h, Option.getD_some]

-- Two records that differ in their errors have one text just when both errors are dropped.
theorem told_iff {fields others : List (String × Json)} {message' text : String}
    (h : DifferInErrors fields others message message')
    (htext : canonicalExperimentText (pythonEnv repr format encode) (.obj fields) = .ok text) :
    canonicalExperimentText (pythonEnv repr format encode) (.obj others) ≠ .ok text ↔
      ¬(noneLike message = true ∧ noneLike message' = true) := by
  rw [text_error hrepr (get_error h.second) h.nonempty', ← describe_eq _ h]
  rw [text_error hrepr (get_error h.first) h.nonempty] at htext
  obtain ⟨base, hdescribe, rfl⟩ := map_eq_ok.mp htext
  rw [hdescribe, ne_eq, not_iff_not]
  change Except.ok ("\n".intercalate _) = Except.ok ("\n".intercalate _) ↔ _
  rw [Except.ok.injEq]
  obtain ⟨separator, hjoin⟩ := intercalate_concat (shownLines (pythonEnv repr format encode) base)
  cases hlike : noneLike message with
  | true =>
      cases hlike' : noneLike message' with
      | true => simp
      | false => simp [hjoin, String.append_assoc]
  | false =>
      cases hlike' : noneLike message' with
      | true =>
          rw [eq_comm]
          simp [hjoin, String.append_assoc]
      | false => simp [hjoin, String.append_assoc, Ne.symm h.ne]

theorem error_shown {text : String} (herror : get experiment "error" = .ok (.str message))
    (hne : message ≠ "") (hlike : noneLike message = false)
    (htext : canonicalExperimentText (pythonEnv repr format encode) experiment = .ok text) :
    ∃ before after, text = before ++ message ++ after := by
  rw [text_error hrepr herror hne] at htext
  obtain ⟨base, -, rfl⟩ := map_eq_ok.mp htext
  obtain ⟨separator, hjoin⟩ := intercalate_concat (shownLines (pythonEnv repr format encode) base)
  have hlast := hjoin ("Error" ++ ": " ++ message)
  refine ⟨"\n".intercalate (shownLines (pythonEnv repr format encode) base) ++ separator ++
    ("Error" ++ ": "), "", ?_⟩
  rw [← String.append_assoc] at hlast
  simp only [hlike, Bool.false_eq_true, if_false, hlast, String.append_empty]

theorem dropsOnlyAbsent_iff (experiment : Json) :
    DropsOnlyAbsent (pythonEnv repr format encode) experiment ↔
      ∀ fields, selected (pythonEnv repr format encode) experiment = .ok fields →
        ∀ field ∈ fields, looksAbsent field.2 = false := by
  constructor
  · intro h fields hselected field hmem
    by_contra hlooks
    have hnull : field.2 ≠ .null := by
      intro hnull
      exact hlooks (by rw [hnull]; rfl)
    exact hlooks ((shown_iff hrepr hmem).mp ((h.lines fields hselected field hmem).mpr hnull)).2
  · intro h
    -- where there is a text and an error, the error is among the selected fields
    have hlike : ∀ {text message}, canonicalExperimentText (pythonEnv repr format encode) experiment =
        .ok text → get experiment "error" = .ok (.str message) → message ≠ "" →
          noneLike message = false := by
      intro text message htext herror hne
      rw [canonicalExperimentText_selected] at htext
      obtain ⟨fields, hfields, -⟩ := map_eq_ok.mp htext
      refine h fields hfields ("Error", .str message) ?_
      rw [selected_error _ herror hne] at hfields
      obtain ⟨base, -, rfl⟩ := map_eq_ok.mp hfields
      simp
    refine ⟨fun fields hfields field hmem => ?_, fun text message htext herror hne => ?_, ?_⟩
    · rw [shown_iff hrepr hmem, and_iff_left (h fields hfields field hmem)]
    · exact error_shown hrepr herror hne (hlike htext herror hne) htext
    · rintro fields others message message' rfl hdiffer text htext
      rw [told_iff hrepr hdiffer htext, hlike htext (get_error hdiffer.first) hdiffer.nonempty]
      simp

omit hrepr in
-- A field that is looked up is None if it is not there, or null.
theorem selectField_obj (label : String) (fields : List (String × Json)) (name : String) :
    ∃ value, selectField label (.obj fields) name = .ok (label, value) ∧
      (value ≠ .null ↔ ∃ found, findField fields name = some found ∧ found ≠ .null) := by
  refine ⟨argument fields name .null, rfl, ?_⟩
  unfold argument
  cases findField fields name with
  | none => simp
  | some found => simp

end dropping

-- The filter drops what it is meant to drop, and nothing else, just when no value that the
-- record selects is a string that reads like an absent one. Status and molecule are selected
-- after their defaults, the error if it is not empty.
theorem canonical_text_drops_iff (repr : Json → String) (format : ℚ → String)
    (encode : String → String → List ℚ)
    (hrepr : ∀ value, (repr (.float value)).toList.getLast?.any Char.isDigit = true) :
    (∀ experiment, DropsOnlyAbsent (pythonEnv repr format encode) experiment ↔
      ∀ fields, selected (pythonEnv repr format encode) experiment = .ok fields →
        ∀ field ∈ fields, looksAbsent field.2 = false) ∧
    (∀ fields others message message' text, DifferInErrors fields others message message' →
      canonicalExperimentText (pythonEnv repr format encode) (.obj fields) = .ok text →
      (canonicalExperimentText (pythonEnv repr format encode) (.obj others) ≠ .ok text ↔
        ¬(noneLike message = true ∧ noneLike message' = true))) ∧
    ∀ label fields name, ∃ value, selectField label (.obj fields) name = .ok (label, value) ∧
      (value ≠ .null ↔ ∃ found, findField fields name = some found ∧ found ≠ .null) :=
  ⟨dropsOnlyAbsent_iff hrepr, fun _ _ _ _ _ h htext => told_iff hrepr h htext, selectField_obj⟩

def noFloats : Env := pythonEnv (fun _ => "0") (fun _ => "") fun _ _ => []

def failedWith (message : String) : List (String × Json) :=
  [("algorithm", .str "qpe"), ("status", .str "failed"), ("error", .str message)]

theorem failedWith_selected (message : String) (h : message ≠ "") :
    selected noFloats (.obj (failedWith message)) = .ok
      [("Algorithm", .str "qpe"), ("Status", .str "failed"), ("True phase", .null),
        ("Counting qubits", .null), ("Shots", .null), ("Estimated phase", .null),
        ("Measurement counts", .null), ("Error", .str message)] := by
  rw [selected_error noFloats rfl h]
  rfl

theorem canonical_text_drops_iff_failed :
    DropsOnlyAbsent noFloats (.obj (failedWith "No backend")) := by
  refine ((canonical_text_drops_iff (fun _ => "0") _ _ fun _ => rfl).1 _).mpr fun fields hfields => ?_
  obtain rfl := Except.ok.inj ((failedWith_selected "No backend" (by decide)).symm.trans hfields)
  decide +kernel

-- What str() makes of a KeyError for the key None.
theorem not_canonical_text_drops :
    ¬∀ experiment, DropsOnlyAbsent noFloats experiment := by
  intro h
  have hall := (dropsOnlyAbsent_iff (fun _ => rfl) _).mp (h (.obj (failedWith "None")))
  have hlooks := hall _ (failedWith_selected "None" (by decide)) ("Error", .str "None") (by simp)
  exact absurd hlooks (by decide +kernel)

end QuantumPlatform.Indexer
