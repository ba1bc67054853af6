import QuantumPlatform.Stream.Alerting.Tracker
import QuantumPlatform.Stream.FaustApp.Alerts.Theorems

namespace QuantumPlatform.Stream

open Process Python

section records

variable {𝕂 : Type} [LinearOrder 𝕂]

-- One sample against a table of records: read, convert, step, convert back and write.
def recordCycle (settings : Hysteresis 𝕂) (table : Dict String AlertStateRecord)
    (sample : String × 𝕂) :
    Except Exc (Dict String AlertStateRecord × Option (AlertTransition 𝕂)) := do
  let prevState ← (table.get sample.1 {}).toState
  let (newState, transition) := step settings sample.1 prevState sample.2
  return (table.set sample.1 (.ofState newState), transition)

def recordsAfter (settings : Hysteresis 𝕂) (samples : List (String × 𝕂)) :
    Except Exc (Dict String AlertStateRecord) :=
  samples.foldlM (fun table sample => Prod.fst <$> recordCycle settings table sample) ∅

-- The samples of a series of calls, without the questions for a level.
def samplesOf (calls : List (TrackerCall 𝕂)) : List (String × 𝕂) :=
  calls.filterMap fun
    | .evaluate backendName value => some (backendName, value)
    | .currentLevel _ => none

def sampleOf (backendName : String) (sample : String × 𝕂) : Option 𝕂 :=
  if sample.1 = backendName then some sample.2 else none

variable {settings : Hysteresis 𝕂} {table : Dict String AlertStateRecord}

theorem recordCycle_ok {state : AlertState} {backendName : String}
    (h : table.get backendName {} = .ofState state) (value : 𝕂) :
    recordCycle settings table (backendName, value) =
      .ok (table.set backendName (.ofState (step settings backendName state value).1),
        (step settings backendName state value).2) := by
  simp only [recordCycle, h, AlertStateRecord.toState_ofState]
  rfl

-- The records stand for these states.
def Records (table : Dict String AlertStateRecord) (states : String → AlertState) : Prop :=
  ∀ backendName, table.get backendName {} = .ofState (states backendName)

theorem Records.cycle {states : String → AlertState} (h : Records table states)
    (sample : String × 𝕂) :
    ∃ later, Prod.fst <$> recordCycle settings table sample = .ok later ∧
      Records later (Keyed.advance sampleOf
        (fun backendName state value => (step settings backendName state value).1) states
        sample) := by
  obtain ⟨backendName, value⟩ := sample
  rw [recordCycle_ok (h backendName)]
  refine ⟨_, rfl, fun other => ?_⟩
  rw [Keyed.advance, sampleOf]
  by_cases hname : other = backendName
  · subst hname
    rw [if_pos rfl]
    exact Dict.get_set_self _ _ _ _
  · rw [if_neg (Ne.symm hname)]
    exact (Dict.get_set_of_ne _ _ _ _ _ hname).trans (h other)

theorem recordsAfter_records (settings : Hysteresis 𝕂) (samples : List (String × 𝕂)) :
    ∃ table, recordsAfter settings samples = .ok table ∧ Records table fun backendName =>
      steps settings backendName (Keyed.ownOf sampleOf backendName samples) :=
  Keyed.foldlM_folded (fun _ _ sample h => h.cycle sample) (fun _ => rfl) samples

omit [LinearOrder 𝕂] in
theorem ownOf_samplesOf (backendName : String) (calls : List (TrackerCall 𝕂)) :
    Keyed.ownOf sampleOf backendName (samplesOf calls) =
      Keyed.ownOf TrackerCall.sample backendName calls := by
  unfold Keyed.ownOf samplesOf
  rw [List.filterMap_filterMap]
  refine List.filterMap_congr fun call _ => ?_
  cases call with
  | evaluate name value => rfl
  | currentLevel name => rfl

-- The tracker, the records and the fold over the backend's own samples are at one level, and
-- make the same of the next sample.
structure Agrees (settings : Hysteresis 𝕂) (calls : List (TrackerCall 𝕂))
    (table : Dict String AlertStateRecord) (backendName : String) (state : AlertState) : Prop where
  tracker : (AlertTracker.after settings calls).currentLevel backendName = state.level
  records : AlertLevel.ofValue (table.get backendName {}).level = .ok state.level
  evaluates : ∀ value, ((AlertTracker.after settings calls).evaluate backendName value).2 =
    (step settings backendName state value).2
  cycles : ∀ value, ∃ later, recordCycle settings table (backendName, value) =
    .ok (later, (step settings backendName state value).2)

theorem Records.agrees {calls : List (TrackerCall 𝕂)}
    (h : Records table fun backendName =>
      steps settings backendName (Keyed.ownOf TrackerCall.sample backendName calls))
    (backendName : String) :
    Agrees settings calls table backendName
      (steps settings backendName (Keyed.ownOf TrackerCall.sample backendName calls)) := by
  obtain ⟨hsettings, hstates⟩ := AlertTracker.after_stores settings calls
  refine ⟨?_, ?_, fun value => ?_, fun value => ?_⟩
  · rw [AlertTracker.currentLevel_eq, hstates]
  · rw [h backendName]
    exact AlertLevel.ofValue_value _
  · simp only [AlertTracker.evaluate, Dict.get_touch, hsettings, hstates]
  · exact ⟨_, recordCycle_ok (h backendName) value⟩

end records

section agent

variable {𝕂 : Type} [Field 𝕂] [LinearOrder 𝕂]

-- The cycle of the agent is this one, with the default parameters.
theorem flatAlert_recordCycle (tables : CalibrationTables 𝕂) (backendName : String) (average : 𝕂) :
    tables.flatAlert backendName average =
      (recordCycle defaultHysteresis tables.alertState (backendName, average)).map fun cycle =>
        ({ tables with alertState := cycle.1 }, cycle.2.map AlertEvent.ofTransition) := by
  unfold CalibrationTables.flatAlert recordCycle
  cases (tables.alertState.get backendName {}).toState with
  | error exc => rfl
  | ok state => rfl

-- The call that would bring a tracker the sample of an event.
def evaluated (entry : CalibrationDelivery 𝕂 × CalibrationOutput 𝕂) : TrackerCall 𝕂 :=
  .evaluate entry.1.event.backendName entry.2.windowAvg

variable [FloorRing 𝕂]

theorem averagesOf_evaluated (backendName : String)
    (history : List (CalibrationDelivery 𝕂 × CalibrationOutput 𝕂)) :
    averagesOf backendName (processedEvents history) =
      Keyed.ownOf TrackerCall.sample backendName (history.map evaluated) := by
  induction history using List.reverseRecOn with
  | nil => rfl
  | append_singleton history entry ih =>
      rw [processedEvents_concat, List.map_append, List.map_singleton, Keyed.ownOf_concat, ← ih]
      let processed := Processed.ofEntry ((processedEvents history).map Processed.delivery) entry
      by_cases hname : entry.1.event.backendName = backendName
      · subst hname
        have hsample : TrackerCall.sample entry.1.event.backendName (evaluated entry) =
            some entry.2.windowAvg := if_pos rfl
        rw [hsample]
        exact averagesOf_concat_self _ processed
      · have hsample : TrackerCall.sample backendName (evaluated entry) = none := if_neg hname
        have hconcat : averagesOf backendName (processedEvents history ++ [processed]) = _ :=
          averagesOf_concat_of_ne _ hname
        rw [hsample, hconcat]
        simp

theorem processedEvents_prefix {seen history : List (CalibrationDelivery 𝕂 × CalibrationOutput 𝕂)}
    (h : seen <+: history) : processedEvents seen <+: processedEvents history := by
  obtain ⟨rest, rfl⟩ := h
  induction rest using List.reverseRecOn with
  | nil => simp
  | append_singleton rest entry ih =>
      rw [← List.append_assoc, processedEvents_concat]
      exact ih.trans (List.prefix_append _ _)

-- The agent's tables against a tracker that is brought the same averages.
theorem Reached.records {tables : CalibrationTables 𝕂}
    {history : List (CalibrationDelivery 𝕂 × CalibrationOutput 𝕂)}
    (h : Reached tables (processedEvents history)) :
    Records tables.alertState fun backendName => steps defaultHysteresis backendName
      (Keyed.ownOf TrackerCall.sample backendName (history.map evaluated)) := by
  intro backendName
  rw [h.alerts backendName, averagesOf_evaluated]

-- What the agent publishes is what the tracker would answer.
def Answered (seen : List (CalibrationDelivery 𝕂 × CalibrationOutput 𝕂))
    (entry : CalibrationDelivery 𝕂 × CalibrationOutput 𝕂) : Prop :=
  entry.2.alert =
    ((AlertTracker.after defaultHysteresis (seen.map evaluated)).evaluate
      entry.1.event.backendName entry.2.windowAvg).2.map AlertEvent.ofTransition

theorem Reached.answered {tables : CalibrationTables 𝕂}
    {history : List (CalibrationDelivery 𝕂 × CalibrationOutput 𝕂)}
    (h : Reached tables (processedEvents history)) : Along Answered history := by
  intro seen entry hseen
  have hprefix := processedEvents_prefix hseen
  rw [processedEvents_concat] at hprefix
  have halert := (h.follows _ _ hprefix).alert
  obtain ⟨hsettings, hstates⟩ :=
    AlertTracker.after_stores (defaultHysteresis : Hysteresis 𝕂) (seen.map evaluated)
  rw [averagesOf_evaluated] at halert
  simp only [Answered, AlertTracker.evaluate, Dict.get_touch, hsettings, hstates]
  exact halert

-- The tracker, the cycle over the records and the agent's own all agree with the fold over
-- a backend's own samples, whatever comes for the other backends in between.
theorem hysteresis_agrees (settings : Hysteresis 𝕂) (root : 𝕂 → 𝕂) :
    (∀ calls, ∃ table, recordsAfter settings (samplesOf calls) = .ok table ∧
      ∀ backendName, Agrees settings calls table backendName
        (steps settings backendName (Keyed.ownOf TrackerCall.sample backendName calls))) ∧
    ∀ deliveries, ∃ tables history,
      processCalibrationEvents root deliveries = .ok (tables, history) ∧
      history.map Prod.fst = deliveries ∧ Along Answered history ∧
      ∀ backendName, Agrees defaultHysteresis (history.map evaluated) tables.alertState backendName
        (steps defaultHysteresis backendName
          (Keyed.ownOf TrackerCall.sample backendName (history.map evaluated))) := by
  refine ⟨fun calls => ?_, fun deliveries => ?_⟩
  · obtain ⟨table, htable, hrecords⟩ := recordsAfter_records settings (samplesOf calls)
    simp only [ownOf_samplesOf] at hrecords
    exact ⟨table, htable, hrecords.agrees⟩
  · obtain ⟨tables, history, hrun, hmap, hreached⟩ :=
      processCalibrationEvents_reached root deliveries
    exact ⟨tables, history, hrun, hmap, hreached.answered, hreached.records.agrees⟩

end agent

end QuantumPlatform.Stream
