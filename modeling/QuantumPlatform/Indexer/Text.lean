import QuantumPlatform.Indexer.Canonical
import QuantumPlatform.Python.Reordering

namespace QuantumPlatform.Indexer

open Process Python

-- The environment with the language's own str(), json.dumps and min().
def pythonEnv (repr : Json → String) (format : ℚ → String) (encode : String → String → List ℚ) :
    Env :=
  ⟨str repr, dumps repr, minimum, format, encode⟩

section values

variable {value other : Json}

theorem alike_same (result : Except Exc Json) : Alike Reordered result result := by
  cases result with
  | error exc => exact .error exc
  | ok found => exact .ok (.same found)

theorem truthy_matches (h : Matches value other) : truthy value = truthy other := by
  cases h with
  | same => rfl
  | arr hitems => cases hitems <;> rfl
  | @obj fields others hlength _ =>
      cases fields with
      | nil => rw [List.eq_nil_of_length_eq_zero hlength.symm]
      | cons field fields =>
          cases others with
          | nil => cases hlength
          | cons other others => rfl

theorem isNone_matches (h : Matches value other) : isNone value = isNone other := by
  cases h <;> rfl

theorem getOr_alike (h : Matches value other) (name : String) (fallback : Json) :
    Alike Reordered (getOr value name fallback) (getOr other name fallback) := by
  cases h with
  | same => exact alike_same _
  | arr hitems => exact .error _
  | @obj fields others _ hfields =>
      have hfound := hfields name
      simp only [getOr, argument]
      generalize findField fields name = found, findField others name = found' at hfound
      cases hfound with
      | none => exact .ok (.same fallback)
      | some hvalue => exact .ok hvalue

theorem subscript_alike (h : Matches value other) (name : String) :
    Alike Reordered (subscript value name) (subscript other name) := by
  cases h with
  | same => exact alike_same _
  | arr hitems => exact .error _
  | @obj fields others _ hfields =>
      have hfound := hfields name
      simp only [subscript]
      generalize findField fields name = found, findField others name = found' at hfound
      cases hfound with
      | none => exact .error _
      | some hvalue => exact .ok hvalue

theorem orElse_alike (h : Reordered value other) {second second' : Except Exc Json}
    (hsecond : Alike Reordered second second') :
    Alike Reordered (orElse value second) (orElse other second') := by
  unfold orElse
  rw [truthy_matches h.matches]
  by_cases htruthy : truthy other = true
  · rw [if_pos htruthy, if_pos htruthy]
    exact .ok h
  · rw [if_neg htruthy, if_neg htruthy]
    exact hsecond

end values

section lines

-- An environment that does not look at the order of keys.
structure Orderless (env : Env) : Prop where
  dumps : ∀ value other, Reordered value other → env.dumps value = env.dumps other
  min : ∀ items others, List.Forall₂ Reordered items others →
    Alike Reordered (env.min items) (env.min others)

theorem pythonEnv_orderless (repr : Json → String) (format : ℚ → String)
    (encode : String → String → List ℚ) : Orderless (pythonEnv repr format encode) :=
  ⟨fun _ _ h => h.dumps_eq repr, fun _ _ h => minimum_alike h⟩

variable {env : Env} (henv : Orderless env) {parameters parameters' result result' : Json}
include henv

theorem line_reordered (label : String) {value other : Json} (h : Reordered value other) :
    line env label value = line env label other := by
  have hdumps := henv.dumps value other h
  unfold line
  cases h.matches with
  | same => rfl
  | arr hitems => exact congrArg (fun text => label ++ ": " ++ text) hdumps
  | obj _ hfields => exact congrArg (fun text => label ++ ": " ++ text) hdumps

theorem fieldLine_reordered (label : String) {value other : Json} (h : Reordered value other)
    (name : String) : fieldLine env label value name = fieldLine env label other name :=
  ((getOr_alike h.matches name .null).bind fun _ _ hfound =>
    .ok (line_reordered henv label hfound)).eq

theorem groverLines_reordered (hparameters : Reordered parameters parameters')
    (hresult : Reordered result result') :
    groverLines env parameters result = groverLines env parameters' result' := by
  simp only [groverLines, fieldLine_reordered henv _ hparameters, fieldLine_reordered henv _ hresult]

theorem qpeLines_reordered (hparameters : Reordered parameters parameters')
    (hresult : Reordered result result') :
    qpeLines env parameters result = qpeLines env parameters' result' := by
  simp only [qpeLines, fieldLine_reordered henv _ hparameters, fieldLine_reordered henv _ hresult]

omit henv in
theorem energiesOf_alike {history history' : Json} (h : Reordered history history') :
    Alike (List.Forall₂ Reordered) (energiesOf history) (energiesOf history') := by
  cases h.matches with
  | same =>
      cases energiesOf history with
      | error exc => exact .error exc
      | ok energies => exact .ok (forall₂_same energies)
  | obj _ _ => exact .error _
  | arr hitems =>
      refine (Alike.mapM (fun item item' hitem => getOr_alike hitem.matches "energy" .null)
        hitems).bind fun energies energies' henergies => .ok ?_
      refine List.rel_filter (fun energy energy' henergy => ?_) henergies
      simp [isNone_matches henergy.matches]

theorem vqeLines_reordered (hparameters : Reordered parameters parameters')
    (hresult : Reordered result result') :
    vqeLines env parameters result = vqeLines env parameters' result' := by
  refine Alike.eq ?_
  unfold vqeLines
  refine (getOr_alike hparameters.matches "molecule" .null).bind fun _ _ hgiven => ?_
  have hnamed := (getOr_alike hresult.matches "molecule" .null).bind fun _ _ hnamed =>
    orElse_alike hnamed (.ok (.same (.str "h2")))
  refine (orElse_alike hgiven hnamed).bind fun _ _ hmolecule => ?_
  simp only [line_reordered henv _ hmolecule, fieldLine_reordered henv _ hparameters,
    fieldLine_reordered henv _ hresult]
  -- the five fields, the same for both
  refine Alike.bind_common fun shots => Alike.bind_common fun iterations => ?_
  refine Alike.bind_common fun energy => Alike.bind_common fun steps => ?_
  refine Alike.bind_common fun converged => ?_
  refine (getOr_alike hresult.matches "history" .null).bind fun _ _ hfound => ?_
  refine (orElse_alike hfound (.ok (.same (.arr [])))).bind fun _ _ hhistory => ?_
  refine (energiesOf_alike hhistory).bind fun energies energies' henergies => ?_
  cases henergies with
  | nil => exact .ok rfl
  | cons hfirst hrest =>
      have hall : List.Forall₂ Reordered _ _ := .cons hfirst hrest
      refine (henv.min _ _ hall).bind fun best best' hbest => .ok ?_
      rw [line_reordered henv _ hfirst, line_reordered henv _ hbest,
        line_reordered henv _ (.arr hall)]

omit henv in
theorem isStr_matches {value other : Json} (h : Matches value other) (text : String) :
    value.isStr text = other.isStr text := by
  cases h <;> rfl

omit henv in
theorem hashable_matches {value other : Json} (h : Matches value other) :
    value.hashable = other.hashable := by
  cases h <;> rfl

theorem algorithmLines_reordered {algorithm algorithm' : Json}
    (halgorithm : Reordered algorithm algorithm') (hparameters : Reordered parameters parameters')
    (hresult : Reordered result result') :
    algorithmLines env algorithm parameters result =
      algorithmLines env algorithm' parameters' result' := by
  simp only [algorithmLines, isStr_matches halgorithm.matches, hashable_matches halgorithm.matches,
    vqeLines_reordered henv hparameters hresult, groverLines_reordered henv hparameters hresult,
    qpeLines_reordered henv hparameters hresult, line_reordered henv _ hparameters,
    line_reordered henv _ hresult]

-- The order of keys, at any depth of the record, leaves no trace in the text.
theorem canonicalExperimentText_reordered {first second : Json} (h : Reordered first second) :
    canonicalExperimentText env first = canonicalExperimentText env second := by
  refine Alike.eq ?_
  have hfound := fun name => getOr_alike h.matches name .null
  unfold canonicalExperimentText
  refine (subscript_alike h.matches "algorithm").bind fun _ _ halgorithm => ?_
  refine (hfound "parameters").bind fun _ _ hgiven => ?_
  refine (orElse_alike hgiven (.ok (.same (.obj [])))).bind fun _ _ hparameters => ?_
  refine (hfound "result").bind fun _ _ hreturned => ?_
  refine (orElse_alike hreturned (.ok (.same (.obj [])))).bind fun _ _ hresult => ?_
  refine (getOr_alike h.matches "status" (.str "unknown")).bind fun _ _ hstatus => ?_
  rw [algorithmLines_reordered henv halgorithm hparameters hresult]
  refine Alike.bind_common fun specific => ?_
  refine (hfound "error").bind fun _ _ herror => .ok ?_
  rw [line_reordered henv _ halgorithm, line_reordered henv _ hstatus,
    line_reordered henv _ herror, truthy_matches herror.matches]

end lines

-- What is left of a record when identity, order of arrival and timing are taken off.
section essence

def withoutFields (names : List String) : Json → Json
  | .obj fields => .obj (fields.filter fun field => field.1 ∉ names)
  | value => value

def onField (name : String) (f : Json → Json) : Json → Json
  | .obj fields => .obj (fields.map fun field =>
      if field.1 = name then (field.1, f field.2) else field)
  | value => value

def onItems (f : Json → Json) : Json → Json
  | .arr items => .arr (items.map f)
  | value => value

def IDENTITY : List String := ["id", "submitted_at", "completed_at"]

def DIAGNOSTICS : List String :=
  ["params", "quantum_time_s", "classical_time_s", "retry_count", "circuit_breaker_trips"]

def energiesOnly : Json → Json := onField "history" (onItems (withoutFields DIAGNOSTICS))

def essence (algorithm : String) (experiment : Json) : Json :=
  let record := withoutFields IDENTITY experiment
  if algorithm = "vqe" then onField "result" energiesOnly record else record

variable {value : Json} {name : String}

theorem findField_filter {names : List String} (h : name ∉ names) (fields : List (String × Json)) :
    findField (fields.filter fun field => field.1 ∉ names) name = findField fields name := by
  induction fields with
  | nil => rfl
  | cons field fields ih =>
      rw [findField_cons]
      by_cases hname : field.1 = name
      · rw [List.filter_cons_of_pos (by simpa [hname] using h), findField_cons, if_pos hname,
          if_pos hname]
      · rw [if_neg hname]
        by_cases hkeep : field.1 ∉ names
        · rw [List.filter_cons_of_pos (by simpa using hkeep), findField_cons, if_neg hname, ih]
        · rw [List.filter_cons_of_neg (by simpa using hkeep), ih]

theorem getOr_withoutFields {names : List String} (h : name ∉ names) (value fallback : Json) :
    getOr (withoutFields names value) name fallback = getOr value name fallback := by
  cases value with
  | obj fields => simp only [withoutFields, getOr, argument, findField_filter h]
  | _ => rfl

theorem subscript_withoutFields {names : List String} (h : name ∉ names) (value : Json) :
    subscript (withoutFields names value) name = subscript value name := by
  cases value with
  | obj fields => simp only [withoutFields, subscript, findField_filter h]
  | _ => rfl

theorem findField_onField (field : String) (f : Json → Json) (fields : List (String × Json))
    (name : String) :
    findField (fields.map fun item => if item.1 = field then (item.1, f item.2) else item) name =
      (findField fields name).map fun value => if name = field then f value else value := by
  induction fields with
  | nil => rfl
  | cons item fields ih =>
      rw [List.map_cons, findField_cons, findField_cons, ih]
      by_cases hfield : item.1 = field
      · rw [if_pos hfield]
        by_cases hname : item.1 = name
        · rw [if_pos hname, if_pos hname, Option.map_some, if_pos (hname.symm.trans hfield)]
        · rw [if_neg hname, if_neg hname]
      · rw [if_neg hfield]
        by_cases hname : item.1 = name
        · rw [if_pos hname, if_pos hname, Option.map_some, if_neg (hname ▸ hfield)]
        · rw [if_neg hname, if_neg hname]

theorem getOr_onField_of_ne {field : String} (h : name ≠ field) (f : Json → Json)
    (value fallback : Json) :
    getOr (onField field f value) name fallback = getOr value name fallback := by
  cases value with
  | obj fields => simp [onField, getOr, argument, findField_onField, h]
  | _ => rfl

theorem subscript_onField_of_ne {field : String} (h : name ≠ field) (f : Json → Json)
    (value : Json) : subscript (onField field f value) name = subscript value name := by
  cases value with
  | obj fields => simp [onField, subscript, findField_onField, h]
  | _ => rfl

theorem get_onField {f : Json → Json} (hnull : f .null = .null) (name : String) (value : Json) :
    get (onField name f value) name = (get value name).map f := by
  cases value with
  | obj fields =>
      simp only [onField, get, getOr, argument, findField_onField, if_true, Except.map]
      cases findField fields name with
      | none => exact congrArg Except.ok hnull.symm
      | some found => rfl
  | _ => rfl

theorem orElse_map {f : Json → Json} (htruthy : truthy (f value) = truthy value) {fallback : Json}
    (hfallback : f fallback = fallback) :
    orElse (f value) (.ok fallback) = (orElse value (.ok fallback)).map f := by
  unfold orElse
  rw [htruthy]
  by_cases h : truthy value = true
  · rw [if_pos h, if_pos h]
    rfl
  · rw [if_neg h, if_neg h]
    exact congrArg Except.ok hfallback.symm

theorem truthy_onField (field : String) (f : Json → Json) (value : Json) :
    truthy (onField field f value) = truthy value := by
  cases value with
  | obj fields => cases fields <;> rfl
  | _ => rfl

theorem truthy_onItems (f : Json → Json) (value : Json) :
    truthy (onItems f value) = truthy value := by
  cases value with
  | arr items => cases items <;> rfl
  | _ => rfl

-- The diagnostics of the history are not read.
theorem energiesOf_onItems (history : Json) :
    energiesOf (onItems (withoutFields DIAGNOSTICS) history) = energiesOf history := by
  cases history with
  | arr items =>
      have hget : ∀ item, get (withoutFields DIAGNOSTICS item) "energy" = get item "energy" :=
        fun item => getOr_withoutFields (by decide) item .null
      simp only [onItems, energiesOf, List.mapM_map, Function.comp_def, hget]
  | _ => rfl

variable {env : Env}

theorem vqeLines_energiesOnly (parameters result : Json) :
    vqeLines env parameters (energiesOnly result) = vqeLines env parameters result := by
  have hget : ∀ {name}, name ≠ "history" → get (energiesOnly result) name = get result name :=
    fun h => getOr_onField_of_ne h _ result .null
  have hhistory : get (energiesOnly result) "history" =
      (get result "history").map (onItems (withoutFields DIAGNOSTICS)) := get_onField rfl _ _
  have helse : ∀ history, orElse (onItems (withoutFields DIAGNOSTICS) history) (.ok (.arr [])) =
      (orElse history (.ok (.arr []))).map (onItems (withoutFields DIAGNOSTICS)) :=
    fun history => orElse_map (truthy_onItems _ _) rfl
  have henergy : get (energiesOnly result) "energy" = get result "energy" := hget (by decide)
  have hiterations : get (energiesOnly result) "iterations" = get result "iterations" :=
    hget (by decide)
  have hconverged : get (energiesOnly result) "converged" = get result "converged" :=
    hget (by decide)
  have hmolecule : get (energiesOnly result) "molecule" = get result "molecule" := hget (by decide)
  simp only [vqeLines, fieldLine, hmolecule, henergy, hiterations, hconverged, hhistory, bind_map_eq,
    helse, energiesOf_onItems]

theorem subscript_withoutIdentity (experiment : Json) :
    subscript (withoutFields IDENTITY experiment) "algorithm" = subscript experiment "algorithm" :=
  subscript_withoutFields (by decide) experiment

theorem canonicalExperimentText_withoutFields (experiment : Json) :
    canonicalExperimentText env (withoutFields IDENTITY experiment) =
      canonicalExperimentText env experiment := by
  have hgetOr : ∀ {name}, name ∉ IDENTITY → ∀ fallback,
      getOr (withoutFields IDENTITY experiment) name fallback = getOr experiment name fallback :=
    fun hname => getOr_withoutFields hname experiment
  have hstatus := hgetOr (by decide : "status" ∉ IDENTITY) (.str "unknown")
  have hparameters := hgetOr (by decide : "parameters" ∉ IDENTITY) .null
  have hresult := hgetOr (by decide : "result" ∉ IDENTITY) .null
  have herror := hgetOr (by decide : "error" ∉ IDENTITY) .null
  simp only [canonicalExperimentText, get, subscript_withoutIdentity, hparameters, hresult, hstatus,
    herror]

-- Of the result of a VQE run, the branch reads no more than this.
theorem canonicalExperimentText_energiesOnly {experiment : Json}
    (h : subscript experiment "algorithm" = .ok (.str "vqe")) :
    canonicalExperimentText env (onField "result" energiesOnly experiment) =
      canonicalExperimentText env experiment := by
  have hother : ∀ {name}, name ≠ "result" → ∀ fallback,
      getOr (onField "result" energiesOnly experiment) name fallback =
        getOr experiment name fallback :=
    fun hname => getOr_onField_of_ne hname energiesOnly experiment
  have hstatus := hother (by decide : "status" ≠ "result") (.str "unknown")
  have hparameters := hother (by decide : "parameters" ≠ "result") .null
  have herror := hother (by decide : "error" ≠ "result") .null
  have hresult : getOr (onField "result" energiesOnly experiment) "result" .null =
      (getOr experiment "result" .null).map energiesOnly := get_onField rfl "result" experiment
  have halgorithm : subscript (onField "result" energiesOnly experiment) "algorithm" =
      .ok (.str "vqe") := (subscript_onField_of_ne (by decide) _ _).trans h
  have helse : ∀ result, orElse (energiesOnly result) (.ok (.obj [])) =
      (orElse result (.ok (.obj []))).map energiesOnly :=
    fun result => orElse_map (truthy_onField _ _ _) rfl
  have hlines : ∀ parameters result, algorithmLines env (.str "vqe") parameters
      (energiesOnly result) = algorithmLines env (.str "vqe") parameters result :=
    fun parameters result => vqeLines_energiesOnly parameters result
  simp only [canonicalExperimentText, get, halgorithm, h, hparameters, hresult, hstatus, herror,
    bind_map_eq, helse, ok_bind, hlines]

-- The text only reads what is left.
theorem canonicalExperimentText_essence {algorithm : String} {experiment : Json}
    (h : subscript experiment "algorithm" = .ok (.str algorithm)) :
    canonicalExperimentText env (essence algorithm experiment) =
      canonicalExperimentText env experiment := by
  unfold essence
  by_cases hvqe : algorithm = "vqe"
  · subst hvqe
    simp only [if_true]
    rw [canonicalExperimentText_energiesOnly ((subscript_withoutIdentity experiment).trans h),
      canonicalExperimentText_withoutFields]
  · simp only [hvqe, if_false]
    exact canonicalExperimentText_withoutFields experiment

-- Reordering does not change what kind of experiment a record is of.
theorem essence_algorithm {algorithm : String} {first second : Json}
    (hfirst : subscript first "algorithm" = .ok (.str algorithm))
    (h : Reordered (essence algorithm first) (essence algorithm second)) :
    subscript second "algorithm" = .ok (.str algorithm) := by
  have hessence : ∀ experiment, subscript (essence algorithm experiment) "algorithm" =
      subscript experiment "algorithm" := by
    intro experiment
    unfold essence
    by_cases hvqe : algorithm = "vqe"
    · simp only [hvqe, if_true]
      rw [subscript_onField_of_ne (by decide), subscript_withoutIdentity]
    · simp only [hvqe, if_false]
      exact subscript_withoutIdentity experiment
  have halike := subscript_alike h.matches "algorithm"
  rw [hessence, hessence, hfirst] at halike
  generalize subscript second "algorithm" = found at halike
  cases halike with
  | ok halgorithm =>
      cases halgorithm.matches with
      | same => rfl

-- Records that differ in what is left out, and in the order of keys, have the same text. This
-- holds of every algorithm, and in particular of the four that have fields of their own.
theorem canonical_text_essential (repr : Json → String) (format : ℚ → String)
    (encode : String → String → List ℚ) {algorithm : String} {first second : Json}
    (halgorithm : subscript first "algorithm" = .ok (.str algorithm))
    (h : Reordered (essence algorithm first) (essence algorithm second)) :
    canonicalExperimentText (pythonEnv repr format encode) first =
      canonicalExperimentText (pythonEnv repr format encode) second := by
  rw [← canonicalExperimentText_essence halgorithm,
    ← canonicalExperimentText_essence (essence_algorithm halgorithm h)]
  exact canonicalExperimentText_reordered (pythonEnv_orderless repr format encode) h

def firstRun : Json :=
  .obj [("id", .str "a"), ("algorithm", .str "vqe"), ("result", .obj [("energy", .float (-1)),
    ("history", .arr [.obj [("energy", .float (-1)), ("params", .arr [])]])])]

def secondRun : Json :=
  .obj [("algorithm", .str "vqe"), ("result", .obj [("history", .arr [.obj [("retry_count", .int 2),
    ("energy", .float (-1))]]), ("energy", .float (-1))]), ("completed_at", .str "b")]

theorem canonical_text_essential_vqe :
    canonicalExperimentText (pythonEnv (fun _ => "-1.0") (fun _ => "") fun _ _ => []) firstRun =
      canonicalExperimentText (pythonEnv (fun _ => "-1.0") (fun _ => "") fun _ _ => []) secondRun :=
  @canonical_text_essential _ _ _ "vqe" _ _ rfl
    (.field [("algorithm", .str "vqe")] [] "result" (.swap [] [] (by decide)))

end essence

end QuantumPlatform.Indexer
