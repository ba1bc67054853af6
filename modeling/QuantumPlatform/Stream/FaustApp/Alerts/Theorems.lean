import QuantumPlatform.Stream.Alerting.Lemmas
import QuantumPlatform.Stream.FaustApp.Alerts
import Mathlib.Algebra.Order.BigOperators.Group.List
import Mathlib.Data.Rat.Floor

namespace QuantumPlatform.Stream

open Process Python WindowTable

@[simp] theorem AlertStateRecord.toState_ofState (state : AlertState) :
    (AlertStateRecord.ofState state).toState = .ok state := by
  simp only [toState, ofState, AlertLevel.ofValue_value]
  rfl

variable {𝕂 : Type} [Field 𝕂] [LinearOrder 𝕂]

-- What the agent publishes for a transition.
def AlertEvent.ofTransition (transition : AlertTransition 𝕂) : AlertEvent 𝕂 :=
  ⟨transition.backendName, transition.level.value, transition.value, transition.threshold⟩

section folds

omit [LinearOrder 𝕂]

theorem foldl_errorRate (deliveries : List (CalibrationDelivery 𝕂)) (total : 𝕂) :
    deliveries.foldl (fun total delivery => total + delivery.event.errorRate) total =
      total + (deliveries.map fun delivery => delivery.event.errorRate).sum := by
  induction deliveries generalizing total with
  | nil => simp
  | cons delivery deliveries ih => simp [ih, add_assoc]

omit [Field 𝕂] in
theorem foldl_count (deliveries : List (CalibrationDelivery 𝕂)) (count : Nat) :
    deliveries.foldl (fun count _ => count + 1) count = count + deliveries.length := by
  induction deliveries generalizing count with
  | nil => simp
  | cons delivery deliveries ih =>
      simp only [List.foldl_cons, ih, List.length_cons]
      omega

omit [Field 𝕂] in
@[simp] theorem ofBackend_concat_self (events : List (Processed 𝕂)) (processed : Processed 𝕂) :
    ofBackend processed.backendName (events ++ [processed]) =
      ofBackend processed.backendName events ++ [processed] := by
  simp [ofBackend]

omit [Field 𝕂] in
theorem ofBackend_concat_of_ne {backendName : String} {processed : Processed 𝕂}
    (events : List (Processed 𝕂)) (hne : processed.backendName ≠ backendName) :
    ofBackend backendName (events ++ [processed]) = ofBackend backendName events := by
  simp [ofBackend, hne]

end folds

namespace CalibrationTables

variable {tables : CalibrationTables 𝕂}

theorem flatAlert_eq {backendName : String} {state : AlertState}
    (h : tables.alertState.get backendName {} = .ofState state) (average : 𝕂) :
    tables.flatAlert backendName average =
      .ok ({ tables with
          alertState := tables.alertState.set backendName
            (.ofState (step defaultHysteresis backendName state average).1) },
        (step defaultHysteresis backendName state average).2.map AlertEvent.ofTransition) := by
  simp only [flatAlert, h, AlertStateRecord.toState_ofState]
  rfl

-- Every level that is stored can be read back.
def DriftReadable (tables : CalibrationTables 𝕂) : Prop :=
  ∀ backendName, ∃ state, tables.driftAlertState.get backendName {} = .ofState state

theorem driftAlert_ok (root : 𝕂 → 𝕂) (event : CalibrationEvent 𝕂) (h : tables.DriftReadable) :
    ∃ later, (∃ alert, tables.driftAlert root event = .ok (later, alert)) ∧
      later.errorRateSum = tables.errorRateSum ∧ later.sampleCount = tables.sampleCount ∧
      later.alertState = tables.alertState ∧ later.DriftReadable := by
  obtain ⟨state, hstate⟩ := h event.backendName
  let newWelford := (tables.baselineStats.get event.backendName {}).update event.errorRate
  let baselineStats := tables.baselineStats.set event.backendName newWelford
  cases hz : (tables.baselineStats.get event.backendName {}).zscore root event.errorRate with
  | none =>
      refine ⟨{ tables with baselineStats := baselineStats }, ⟨none, ?_⟩, rfl, rfl, rfl, h⟩
      simp only [driftAlert, hz]
      rfl
  | some z =>
      let newState := (step driftHysteresis event.backendName state |z|).1
      refine ⟨{ tables with
        baselineStats := baselineStats,
        driftAlertState := tables.driftAlertState.set event.backendName (.ofState newState) },
        ?_, rfl, rfl, rfl, ?_⟩
      · simp only [driftAlert, hz, hstate, AlertStateRecord.toState_ofState]
        exact ⟨_, rfl⟩
      · intro backendName
        by_cases hname : backendName = event.backendName
        · subst hname
          exact ⟨newState, Dict.get_set_self _ _ _ _⟩
        · obtain ⟨other, hother⟩ := h backendName
          exact ⟨other, (Dict.get_set_of_ne _ _ _ _ _ hname).trans hother⟩

end CalibrationTables

variable [FloorRing 𝕂]

section history

variable (history : List (CalibrationDelivery 𝕂 × CalibrationOutput 𝕂))
  (entry : CalibrationDelivery 𝕂 × CalibrationOutput 𝕂)

def Processed.ofEntry (seen : List (CalibrationDelivery 𝕂))
    (entry : CalibrationDelivery 𝕂 × CalibrationOutput 𝕂) : Processed 𝕂 where
  delivery := entry.1
  output := entry.2
  samples := windowRates entry.1.event.backendName (tumbling entry.1.timestamp) (seen ++ [entry.1])

theorem processedEvents_concat :
    processedEvents (history ++ [entry]) = processedEvents history ++
      [.ofEntry ((processedEvents history).map Processed.delivery) entry] := by
  simp only [processedEvents, List.foldl_concat]
  rfl

end history

def averagesOf (backendName : String) (events : List (Processed 𝕂)) : List 𝕂 :=
  (ofBackend backendName events).map fun processed => processed.output.windowAvg

omit [Field 𝕂] [LinearOrder 𝕂] [FloorRing 𝕂] in
theorem averagesOf_concat_self (events : List (Processed 𝕂)) (processed : Processed 𝕂) :
    averagesOf processed.backendName (events ++ [processed]) =
      averagesOf processed.backendName events ++ [processed.output.windowAvg] := by
  rw [averagesOf, ofBackend_concat_self, List.map_append]
  rfl

omit [Field 𝕂] [LinearOrder 𝕂] [FloorRing 𝕂] in
theorem averagesOf_concat_of_ne {backendName : String} {processed : Processed 𝕂}
    (events : List (Processed 𝕂)) (hne : processed.backendName ≠ backendName) :
    averagesOf backendName (events ++ [processed]) = averagesOf backendName events := by
  rw [averagesOf, ofBackend_concat_of_ne events hne]
  rfl

-- How an event follows from those before it: the samples of its window, the average as
-- the wall clock has it, and the transition of the hysteresis.
structure Follows (seen : List (Processed 𝕂)) (processed : Processed 𝕂) : Prop where
  samples : processed.samples = windowRates processed.backendName
    (tumbling processed.delivery.timestamp)
    (seen.map Processed.delivery ++ [processed.delivery])
  average : processed.output.windowAvg =
    wallClockMean (seen.map Processed.delivery) processed.delivery
  alert : processed.output.alert =
    (step defaultHysteresis processed.backendName
      (steps defaultHysteresis processed.backendName (averagesOf processed.backendName seen))
      processed.output.windowAvg).2.map AlertEvent.ofTransition

-- The tables after the processed events.
structure Reached (tables : CalibrationTables 𝕂) (events : List (Processed 𝕂)) : Prop where
  totals : Exact (fun delivery : CalibrationDelivery 𝕂 => delivery.event.backendName)
    (fun delivery => tumbling delivery.timestamp)
    (fun total delivery => total + delivery.event.errorRate) 0 tables.errorRateSum
    (events.map Processed.delivery)
  counts : Exact (fun delivery : CalibrationDelivery 𝕂 => delivery.event.backendName)
    (fun delivery => tumbling delivery.timestamp) (fun count _ => count + 1) 0
    tables.sampleCount (events.map Processed.delivery)
  alerts : ∀ backendName, tables.alertState.get backendName {} =
    .ofState (steps defaultHysteresis backendName (averagesOf backendName events))
  drift : tables.DriftReadable
  follows : Along Follows events

theorem Reached.start : Reached ({} : CalibrationTables 𝕂) [] :=
  ⟨exact_nil, exact_nil, fun _ => rfl, fun _ => ⟨{}, rfl⟩, Along.nil⟩

-- The two reads.
theorem Reached.windowAvg {tables : CalibrationTables 𝕂} {events : List (Processed 𝕂)}
    (h : Reached tables events) (delivery : CalibrationDelivery 𝕂) :
    (tables.accumulate delivery).windowAvg delivery =
      wallClockMean (events.map Processed.delivery) delivery := by
  let seen := events.map Processed.delivery ++ [delivery]
  let rates := fun time : 𝕂 => windowRates delivery.event.backendName (tumbling time) seen
  have htotal : (tables.accumulate delivery).errorRateSum delivery.event.backendName
      (tumbling delivery.totalReadAt) = (rates delivery.totalReadAt).sum := by
    have hexact := h.totals.update delivery
    have hread := hexact delivery.event.backendName (tumbling delivery.totalReadAt)
    rw [foldl_errorRate, zero_add] at hread
    exact hread
  have hcount : (tables.accumulate delivery).sampleCount delivery.event.backendName
      (tumbling delivery.countReadAt) = (rates delivery.countReadAt).length := by
    have hexact := h.counts.update delivery
    have hread := hexact delivery.event.backendName (tumbling delivery.countReadAt)
    rw [foldl_count, zero_add] at hread
    simp only [rates, windowRates, List.length_map]
    exact hread
  unfold CalibrationTables.windowAvg wallClockMean
  simp only [htotal, hcount]
  by_cases hzero : (rates delivery.countReadAt).length = 0
  · rw [if_neg (not_not.mpr hzero), if_pos hzero]
  · rw [if_pos hzero, if_neg hzero]

-- One event keeps the tables exact, and follows from the events before it.
theorem Reached.processed {tables : CalibrationTables 𝕂} {events : List (Processed 𝕂)}
    (h : Reached tables events) (root : 𝕂 → 𝕂) (delivery : CalibrationDelivery 𝕂) :
    ∃ later output, processCalibrationEvent root tables delivery = .ok (later, output) ∧
      Reached later (events ++ [.ofEntry (events.map Processed.delivery) (delivery, output)]) := by
  let backendName := delivery.event.backendName
  let average := wallClockMean (events.map Processed.delivery) delivery
  let prevState := steps defaultHysteresis backendName (averagesOf backendName events)
  let accumulated := tables.accumulate delivery
  have haverage : accumulated.windowAvg delivery = average := h.windowAvg delivery
  have hstored : accumulated.alertState.get backendName {} = .ofState prevState :=
    h.alerts backendName
  let flat : CalibrationTables 𝕂 := { accumulated with
    alertState := accumulated.alertState.set backendName
      (.ofState (step defaultHysteresis backendName prevState average).1) }
  let alert := (step defaultHysteresis backendName prevState average).2.map AlertEvent.ofTransition
  have hflat : accumulated.flatAlert backendName average = .ok (flat, alert) :=
    CalibrationTables.flatAlert_eq hstored average
  obtain ⟨later, ⟨driftAlert, hdrift⟩, htotals, hcounts, halerts, hreadable⟩ :=
    @CalibrationTables.driftAlert_ok 𝕂 _ _ flat root delivery.event h.drift
  let processed : Processed 𝕂 :=
    .ofEntry (events.map Processed.delivery) (delivery, ⟨average, alert, driftAlert⟩)
  have hmap : (events ++ [processed]).map Processed.delivery =
      events.map Processed.delivery ++ [delivery] := by
    simp [processed, Processed.ofEntry]
  refine ⟨later, ⟨average, alert, driftAlert⟩, ?_, ?_⟩
  · have hprocess : processCalibrationEvent root tables delivery =
        accumulated.flatAlert backendName average >>= fun flat =>
          flat.1.driftAlert root delivery.event >>= fun drift =>
            .ok (drift.1, ⟨average, flat.2, drift.2⟩) := by
      rw [← haverage]
      rfl
    rw [hprocess, hflat]
    change (flat.driftAlert root delivery.event >>= _) = _
    rw [hdrift]
    rfl
  · refine ⟨?_, ?_, ?_, hreadable, Along.concat_iff.mpr ⟨h.follows, rfl, rfl, rfl⟩⟩
    · rw [hmap, htotals]
      exact h.totals.update delivery
    · rw [hmap, hcounts]
      exact h.counts.update delivery
    · intro other
      rw [halerts]
      by_cases hname : other = backendName
      · subst hname
        have hown : averagesOf backendName (events ++ [processed]) =
            averagesOf backendName events ++ [average] := averagesOf_concat_self events processed
        rw [hown, steps_concat]
        exact Dict.get_set_self _ _ _ _
      · have hother : averagesOf other (events ++ [processed]) = averagesOf other events :=
          averagesOf_concat_of_ne events (Ne.symm hname)
        rw [hother, ← h.alerts other]
        exact Dict.get_set_of_ne _ _ _ _ _ hname

-- The agent never raises, whatever it is sent.
theorem processCalibrationEvents_reached (root : 𝕂 → 𝕂)
    (deliveries : List (CalibrationDelivery 𝕂)) :
    ∃ tables history, processCalibrationEvents root deliveries = .ok (tables, history) ∧
      history.map Prod.fst = deliveries ∧ Reached tables (processedEvents history) := by
  induction deliveries using List.reverseRecOn with
  | nil => exact ⟨{}, [], rfl, rfl, .start⟩
  | append_singleton deliveries delivery ih =>
      obtain ⟨tables, history, hrun, hmap, hreached⟩ := ih
      obtain ⟨later, output, hprocess, hlater⟩ := hreached.processed root delivery
      refine ⟨later, history ++ [(delivery, output)], ?_, by simp [hmap], ?_⟩
      · unfold processCalibrationEvents at hrun ⊢
        rw [List.foldlM_append, hrun]
        change (processCalibrationEvent root tables delivery >>= _) >>= _ = _
        rw [hprocess]
        rfl
      · rw [processedEvents_concat]
        exact hlater

section timing

theorem length_windowRates {first second : List (CalibrationDelivery 𝕂)}
    (h : List.Forall₂ CalibrationDelivery.SameTiming first second) (backendName : String)
    (window : Int) :
    (windowRates backendName window second).length =
      (windowRates backendName window first).length := by
  have hamong := among_forall₂ (fun delivery : CalibrationDelivery 𝕂 => delivery.event.backendName)
    (fun delivery => tumbling delivery.timestamp)
    (fun item other hitem => ⟨hitem.backendName, by rw [hitem.timestamp]⟩) h backendName window
  rw [windowRates, windowRates, List.length_map, List.length_map]
  exact hamong.length_eq.symm

-- Where the reads go is the same for all error rates.
theorem ReadsOwnWindow.timed {seen past : List (CalibrationDelivery 𝕂)}
    {delivery other : CalibrationDelivery 𝕂} (hseen : List.Forall₂ CalibrationDelivery.SameTiming seen past)
    (hother : CalibrationDelivery.SameTiming delivery other) (h : ReadsOwnWindow seen delivery) :
    ReadsOwnWindow past other := by
  have hall : List.Forall₂ CalibrationDelivery.SameTiming (seen ++ [delivery]) (past ++ [other]) :=
    List.rel_append hseen (.cons hother .nil)
  refine ⟨?_, ?_⟩
  · rw [hother.totalReadAt, hother.timestamp]
    exact h.total
  · rw [length_windowRates hall, length_windowRates hall, hother.backendName, hother.countReadAt,
      hother.timestamp]
    exact h.count

variable (backendName : String) (window : Int)

end timing

section sound

variable {events : List (Processed 𝕂)}

-- A transition to OK, as the hysteresis makes it.
theorem Follows.clears {seen : List (Processed 𝕂)} {processed : Processed 𝕂}
    (h : Follows seen processed) (hclears : processed.clears = true) :
    processed.output.windowAvg ≤ (defaultHysteresis : Hysteresis 𝕂).threshold ∧
      (defaultHysteresis : Hysteresis 𝕂).recoveryStreak ≤
        ((averagesOf processed.backendName seen).rtakeWhile fun average =>
          decide (average ≤ (defaultHysteresis : Hysteresis 𝕂).threshold)).length + 1 := by
  rw [Processed.clears, h.alert] at hclears
  obtain ⟨alert, halert, hlevel⟩ := (Option.any_eq_true _ _).mp hclears
  obtain ⟨transition, htransition, rfl⟩ := Option.map_eq_some_iff.mp halert
  rcases step_transition htransition with ⟨rfl, -⟩ | ⟨rfl, hvalue, -, hstreak⟩
  · exact absurd hlevel (by simp [AlertEvent.ofTransition, AlertLevel.value])
  · rw [steps_consecutiveOk] at hstreak
    exact ⟨hvalue, hstreak⟩

-- The last averages of the backend, the one that cleared the alert among them.
theorem Follows.streak {seen : List (Processed 𝕂)} {processed : Processed 𝕂}
    (h : Follows seen processed) (hclears : processed.clears = true) :
    ∃ streak, streak <:+ ofBackend processed.backendName (seen ++ [processed]) ∧
      streak.length = (defaultHysteresis : Hysteresis 𝕂).recoveryStreak ∧
      ∀ recovered ∈ streak,
        recovered.output.windowAvg ≤ (defaultHysteresis : Hysteresis 𝕂).threshold := by
  obtain ⟨hvalue, hstreak⟩ := h.clears hclears
  let low := fun recovered : Processed 𝕂 =>
    decide (recovered.output.windowAvg ≤ (defaultHysteresis : Hysteresis 𝕂).threshold)
  have hrun : ((ofBackend processed.backendName (seen ++ [processed])).rtakeWhile low).length =
      ((ofBackend processed.backendName seen).rtakeWhile low).length + 1 := by
    rw [ofBackend_concat_self, List.rtakeWhile_concat_pos _ _ _ (by simpa [low] using hvalue)]
    simp
  rw [averagesOf, rtakeWhile_map_length] at hstreak
  obtain ⟨streak, hsuffix, hlength, hlow⟩ := exists_streak (hstreak.trans_eq hrun.symm)
  exact ⟨streak, hsuffix, hlength, fun recovered hmem => by simpa [low] using hlow _ hmem⟩

end sound

end QuantumPlatform.Stream
